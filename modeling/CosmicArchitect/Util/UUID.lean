import CosmicArchitect.Util.Serialize

/-!
# The text form of a UUID (Util/UUID.cpp)

A character is a byte; a `std::string` is a list of bytes and a `godot::String` a list of
Unicode characters. `isxdigit` and `tolower` are those of the C locale.
-/

namespace CosmicArchitect.Util
open Serialize

/-- A character literal of the source. -/
def char (c : Char) : UInt8 := UInt8.ofNat c.toNat

def toHexChar : Bytes :=
  [char '0', char '1', char '2', char '3', char '4', char '5', char '6', char '7', char '8',
    char '9', char 'a', char 'b', char 'c', char 'd', char 'e', char 'f']

/-- The character with the value of a half byte. -/
def hexChar (half : UInt8) : UInt8 := toHexChar.getD half.toNat 0

def isxdigit (c : UInt8) : Bool :=
  (char '0' ≤ c && c ≤ char '9') || (char 'A' ≤ c && c ≤ char 'F') ||
    (char 'a' ≤ c && c ≤ char 'f')

def tolower (c : UInt8) : UInt8 := if char 'A' ≤ c && c ≤ char 'Z' then c + 32 else c

/-- `HexChrToDec`; `char` is signed. -/
def hexChrToDec (c : UInt8) : UInt8 :=
  if c.toInt8 ≤ (char '9').toInt8 then c - char '0'
  else 10 + c - (if c.toInt8 ≤ (char 'F').toInt8 then char 'A' else char 'a')

/-- `m_bytes` of a UUID. -/
structure UUID where
  bytes : Bytes
  size : bytes.length = 16
deriving DecidableEq

namespace UUID

/-- `m_data[0]` and `m_data[1]`, the other member of the union. -/
def data (u : UUID) : Nat × Nat := (ofData (u.bytes.take 8), ofData (u.bytes.drop 8))

def eq (u v : UUID) : Bool := u.data.1 == v.data.1 && u.data.2 == v.data.2

/-- The loop over `count` bytes from `src` on, two characters a byte. -/
def writeBytes (bytes : Bytes) (src count : Nat) : Bytes :=
  (List.range count).flatMap fun i =>
    [hexChar ((bytes.getD (src + i) 0 >>> 4) &&& 0xF), hexChar (bytes.getD (src + i) 0 &&& 0xF)]

/-- `UUIDToString` (lines 20-64) -/
def uuidToString (bytes : Bytes) : Bytes :=
  writeBytes bytes 0 4 ++ char '-' :: writeBytes bytes 4 2 ++ char '-' :: writeBytes bytes 6 2 ++
    char '-' :: writeBytes bytes 8 2 ++ char '-' :: writeBytes bytes 10 6

/-- Where a dash stands. -/
def IsDash (i : Nat) : Prop := i = 8 ∨ i = 13 ∨ i = 18 ∨ i = 23

instance : DecidablePred IsDash := fun _ => inferInstanceAs (Decidable (_ ∨ _))

/-- The characters from index `i` on, without the dashes; `none` when one is not accepted. -/
def scan : Nat → Bytes → Option Bytes
  | _, [] => some []
  | i, c :: cs =>
    if IsDash i then if c ≠ char '-' then none else scan (i + 1) cs
    else if isxdigit c then (scan (i + 1) cs).map (tolower c :: ·) else none

/-- The bytes of `count` pairs of hexadecimal digits. -/
def pairBytes (str : Bytes) (count : Nat) : Bytes :=
  (List.range count).map fun byte =>
    (hexChrToDec (str.getD (byte * 2) 0) <<< 4) ||| hexChrToDec (str.getD (byte * 2 + 1) 0)

theorem pairBytes_length (str : Bytes) (count : Nat) : (pairBytes str count).length = count := by
  simp [pairBytes]

/-- `UUIDFromString` (lines 66-102); it reads 36 characters and writes `uuid_bytes` only when
all were accepted. -/
def uuidFromString (buffer : Bytes) : Option UUID :=
  (scan 0 (buffer.take 36)).map fun str => ⟨pairBytes str 16, pairBytes_length str 16⟩

def zero : UUID := ⟨List.replicate 16 0, List.length_replicate⟩

/-- The constructor from a `std::string` (lines 113-124). -/
def ofString (string : Bytes) : UUID :=
  if string.length ≠ 36 then zero else (uuidFromString string).getD zero

/-- `utf8()` of a `godot::String` -/
def utf8 (string : List Char) : Bytes := string.flatMap String.utf8EncodeChar

/-- The constructor from a `godot::String` (lines 126-137). -/
def ofGodotString (string : List Char) : UUID :=
  if string.length ≠ 36 then zero else (uuidFromString (utf8 string)).getD zero

def toString (u : UUID) : Bytes := uuidToString u.bytes

/-- `godot::String::utf8` on the characters, all of which are ASCII. -/
def toGodotString (u : UUID) : List Char :=
  (uuidToString u.bytes).map fun c => Char.ofNat c.toNat

/-- The constructor does not report an error. -/
def Accepts (string : Bytes) : Prop := string.length = 36 ∧ (uuidFromString string).isSome

def AcceptsGodot (string : List Char) : Prop :=
  string.length = 36 ∧ (uuidFromString (utf8 string)).isSome

/-! ### One character -/

theorem forall_uint8 {P : UInt8 → Prop} (h : ∀ n < 256, P (UInt8.ofNat n)) (c : UInt8) : P c := by
  have hc := h c.toNat c.toNat_lt
  rwa [UInt8.ofNat_toNat] at hc

theorem hexChar_spec : ∀ half < 16, isxdigit (hexChar half) = true ∧
    tolower (hexChar half) = hexChar half ∧ hexChrToDec (hexChar half) = half := by
  intro half
  revert half
  exact forall_uint8 (by decide +kernel)

theorem hexChrToDec_spec : ∀ c, isxdigit c = true → hexChrToDec (tolower c) < 16 ∧
    hexChar (hexChrToDec (tolower c)) = tolower c :=
  forall_uint8 (by decide +kernel)

theorem half_lt : ∀ b : UInt8, (b >>> 4) &&& 0xF < 16 ∧ b &&& 0xF < 16 :=
  forall_uint8 (by decide +kernel)

theorem halves_byte : ∀ b : UInt8, (((b >>> 4) &&& 0xF) <<< 4) ||| (b &&& 0xF) = b :=
  forall_uint8 (by decide +kernel)

theorem byte_halves : ∀ v1 : UInt8, v1 < 16 → ∀ v2 : UInt8, v2 < 16 →
    (((v1 <<< 4) ||| v2) >>> 4) &&& 0xF = v1 ∧ ((v1 <<< 4) ||| v2) &&& 0xF = v2 := by
  refine forall_uint8 ?_
  intro n hn h1
  refine forall_uint8 ?_
  revert n
  decide +kernel

/-! ### Digits and bytes -/

def hexDigits (bytes : Bytes) : Bytes :=
  bytes.flatMap fun b : UInt8 => [hexChar ((b >>> 4) &&& 0xF), hexChar (b &&& 0xF)]

theorem pairBytes_cons (x y : UInt8) (str : Bytes) (count : Nat) :
    pairBytes (x :: y :: str) (count + 1) =
      ((hexChrToDec x <<< 4) ||| hexChrToDec y) :: pairBytes str count := by
  rw [pairBytes, List.range_succ_eq_map, List.map_cons, List.map_map]
  refine congrArg₂ List.cons rfl (List.map_congr_left fun byte _ => ?_)
  have h0 : (byte + 1) * 2 = byte * 2 + 1 + 1 := by omega
  simp only [Function.comp_apply, Nat.succ_eq_add_one, h0, List.getD_cons_succ]

theorem pairBytes_hexDigits (bytes : Bytes) : pairBytes (hexDigits bytes) bytes.length = bytes := by
  induction bytes with
  | nil => rfl
  | cons b bytes ih =>
    obtain ⟨h1, h2⟩ := half_lt b
    show pairBytes (hexChar ((b >>> 4) &&& 0xF) :: hexChar (b &&& 0xF) :: hexDigits bytes)
      (bytes.length + 1) = b :: bytes
    rw [pairBytes_cons, (hexChar_spec _ h1).2.2, (hexChar_spec _ h2).2.2, halves_byte, ih]

theorem hexDigits_pairBytes (count : Nat) : ∀ str : Bytes, str.length = 2 * count →
    (∀ c ∈ str, isxdigit c = true) →
      hexDigits (pairBytes (str.map tolower) count) = str.map tolower := by
  induction count with
  | zero =>
    intro str hlen _
    rw [List.length_eq_zero_iff.mp hlen]
    rfl
  | succ count ih =>
    intro str hlen hdigit
    match str, hlen, hdigit with
    | x :: y :: str, hlen, hdigit =>
      have hx := hexChrToDec_spec x (hdigit x (by simp))
      have hy := hexChrToDec_spec y (hdigit y (by simp))
      obtain ⟨h1, h2⟩ := byte_halves _ hx.1 _ hy.1
      have hrest := ih str (by simp at hlen; omega) fun c hc => hdigit c (by simp [hc])
      rw [List.map_cons, List.map_cons, pairBytes_cons]
      show hexChar _ :: hexChar _ :: hexDigits (pairBytes (str.map tolower) count) = _
      rw [h1, h2, hx.2, hy.2, hrest]

/-! ### The dashes -/

/-- Digits with the dashes that stand between them, from index `i` on. -/
def dashed : Nat → Bytes → Bytes
  | _, [] => []
  | i, c :: cs => if IsDash i then char '-' :: c :: dashed (i + 2) cs else c :: dashed (i + 1) cs

theorem uuidToString_eq (u : UUID) : uuidToString u.bytes = dashed 0 (hexDigits u.bytes) := by
  obtain ⟨bytes, hsize⟩ := u
  match bytes, hsize with
  | [b0, b1, b2, b3, b4, b5, b6, b7, b8, b9, b10, b11, b12, b13, b14, b15], _ => rfl

def Wellformed (i : Nat) (cs : Bytes) : Prop :=
  ∀ j c, cs[j]? = some c → if IsDash (i + j) then c = char '-' else isxdigit c = true

theorem wellformed_cons {i : Nat} {c : UInt8} {cs : Bytes} : Wellformed i (c :: cs) ↔
    (if IsDash i then c = char '-' else isxdigit c = true) ∧ Wellformed (i + 1) cs := by
  constructor
  · intro h
    refine ⟨h 0 c rfl, fun j d hd => ?_⟩
    have hj := h (j + 1) d hd
    rwa [Nat.add_comm j 1, ← Nat.add_assoc] at hj
  · intro h j d hd
    cases j with
    | zero =>
      cases hd
      exact h.1
    | succ j =>
      have hj := h.2 j d hd
      rwa [Nat.add_assoc, Nat.add_comm 1 j] at hj

theorem scan_isSome (cs : Bytes) : ∀ i, (scan i cs).isSome ↔ Wellformed i cs := by
  induction cs with
  | nil => exact fun i => ⟨fun _ j c h => (by cases h), fun _ => rfl⟩
  | cons c cs ih =>
    intro i
    rw [wellformed_cons, ← ih, scan]
    by_cases hi : IsDash i
    · by_cases hc : c = char '-'
      · simp [hi, hc]
      · simp [hi, hc]
    · cases hx : isxdigit c
      · simp [hi]
      · simp [hi]

/-- How many dashes stand from index `i` on. -/
def dashesFrom (i : Nat) : Nat :=
  if i ≤ 8 then 4 else if i ≤ 13 then 3 else if i ≤ 18 then 2 else if i ≤ 23 then 1 else 0

theorem dashesFrom_succ {i : Nat} :
    dashesFrom i = dashesFrom (i + 1) + if IsDash i then 1 else 0 := by
  by_cases hi : IsDash i
  · rw [if_pos hi]
    rcases hi with rfl | rfl | rfl | rfl <;> rfl
  · rw [if_neg hi, Nat.add_zero]
    unfold IsDash at hi
    unfold dashesFrom
    split_ifs <;> omega

/-- An accepted text is its digits with the dashes between them. -/
theorem scan_spec (cs : Bytes) : ∀ i ds, i + cs.length = 36 → scan i cs = some ds →
    cs.length = ds.length + dashesFrom i ∧ cs.map tolower = dashed i ds ∧
      ∃ str : Bytes, ds = str.map tolower ∧ ∀ c ∈ str, isxdigit c = true := by
  induction cs with
  | nil =>
    intro i ds hlen h
    cases h
    have hi : i = 36 := hlen
    subst hi
    exact ⟨rfl, rfl, [], rfl, fun c hc => by cases hc⟩
  | cons c cs ih =>
    intro i ds hlen h
    have hlen' : i + 1 + cs.length = 36 := by
      rw [List.length_cons] at hlen
      omega
    have hdashes := dashesFrom_succ (i := i)
    rw [scan] at h
    by_cases hi : IsDash i
    · rw [if_pos hi] at h hdashes
      split at h
      · cases h
      · next hc =>
        have hdash : c = char '-' := not_not.mp hc
        obtain ⟨hcount, hmap, hstr⟩ := ih (i + 1) ds hlen' h
        have hnext : ¬ IsDash (i + 1) := by
          unfold IsDash at hi ⊢
          omega
        refine ⟨by rw [List.length_cons]; omega, ?_, hstr⟩
        cases ds with
        | nil =>
          -- the last character is no dash
          rw [List.map_eq_nil_iff.mp hmap, List.length_nil] at hlen'
          unfold IsDash at hi
          omega
        | cons d ds =>
          rw [dashed, if_neg hnext] at hmap
          rw [dashed, if_pos hi, List.map_cons, hmap, hdash]
          rfl
    · rw [if_neg hi] at h hdashes
      split at h
      · next hx =>
        obtain ⟨ds', hds', hcons⟩ := Option.map_eq_some_iff.mp h
        obtain ⟨hcount, hmap, str, hstr, hdigit⟩ := ih (i + 1) ds' hlen' hds'
        subst hcons
        refine ⟨by rw [List.length_cons, List.length_cons]; omega, ?_, c :: str, ?_, ?_⟩
        · rw [dashed, if_neg hi, List.map_cons, hmap]
        · rw [List.map_cons, hstr]
        · intro d hd
          rcases List.mem_cons.mp hd with hd | hd
          · rw [hd]
            exact hx
          · exact hdigit d hd
      · cases h

theorem scan_dashed (ds : Bytes) : ∀ i, ds.length + dashesFrom i + i = 36 →
    (∀ c ∈ ds, isxdigit c = true ∧ tolower c = c) → scan i (dashed i ds) = some ds := by
  induction ds with
  | nil =>
    intro i _ _
    rfl
  | cons d ds ih =>
    intro i hlen hdigit
    have hdashes := dashesFrom_succ (i := i)
    have hdashes' : dashesFrom (i + 1) = dashesFrom (i + 2) + _ := dashesFrom_succ
    rw [List.length_cons] at hlen
    obtain ⟨hx, hlow⟩ := hdigit d (List.mem_cons_self ..)
    have hrest : ∀ c ∈ ds, isxdigit c = true ∧ tolower c = c :=
      fun c hc => hdigit c (List.mem_cons_of_mem _ hc)
    by_cases hi : IsDash i
    · have hnext : ¬ IsDash (i + 1) := by
        unfold IsDash at hi ⊢
        omega
      rw [if_pos hi] at hdashes
      rw [if_neg hnext] at hdashes'
      have htail := ih (i + 2) (by omega) hrest
      rw [dashed, if_pos hi, scan, if_pos hi, if_neg (by simp), scan, if_neg hnext, if_pos hx, hlow,
        htail]
      rfl
    · rw [if_neg hi] at hdashes
      have htail := ih (i + 1) (by omega) hrest
      rw [dashed, if_neg hi, scan, if_neg hi, if_pos hx, hlow, htail]
      rfl

/-! ### The codec -/

theorem digits_of_hexDigits (bytes : Bytes) :
    ∀ c ∈ hexDigits bytes, isxdigit c = true ∧ tolower c = c := by
  intro c hc
  obtain ⟨b, -, hb⟩ := List.mem_flatMap.mp hc
  obtain ⟨h1, h2⟩ := half_lt b
  rcases List.mem_cons.mp hb with hb | hb
  · rw [hb]
    exact ⟨(hexChar_spec _ h1).1, (hexChar_spec _ h1).2.1⟩
  · rw [List.mem_singleton.mp hb]
    exact ⟨(hexChar_spec _ h2).1, (hexChar_spec _ h2).2.1⟩

theorem hexDigits_length (bytes : Bytes) : (hexDigits bytes).length = 2 * bytes.length := by
  induction bytes with
  | nil => rfl
  | cons b bytes ih =>
    show (hexDigits bytes).length + 1 + 1 = 2 * (bytes.length + 1)
    omega

theorem toString_length (u : UUID) : u.toString.length = 36 := by
  obtain ⟨bytes, hsize⟩ := u
  match bytes, hsize with
  | [b0, b1, b2, b3, b4, b5, b6, b7, b8, b9, b10, b11, b12, b13, b14, b15], _ => rfl

theorem uuidFromString_toString (u : UUID) : uuidFromString u.toString = some u := by
  have hlen : (hexDigits u.bytes).length = 32 := by rw [hexDigits_length, u.size]
  have hscan := scan_dashed (hexDigits u.bytes) 0 (by rw [hlen]; rfl) (digits_of_hexDigits u.bytes)
  have hpairs := pairBytes_hexDigits u.bytes
  rw [u.size] at hpairs
  rw [uuidFromString, List.take_of_length_le (by rw [toString_length]), toString, uuidToString_eq,
    hscan, Option.map_some]
  simp only [hpairs]

theorem eq_refl (u : UUID) : u.eq u = true := by
  simp [eq]

/-- A text that is read is the text of its UUID up to case. -/
theorem toString_of_uuidFromString {s : Bytes} {u : UUID} (hlen : s.length = 36)
    (h : uuidFromString s = some u) : u.toString = s.map tolower := by
  rw [uuidFromString, List.take_of_length_le (by omega)] at h
  obtain ⟨ds, hscan, hu⟩ := Option.map_eq_some_iff.mp h
  obtain ⟨hcount, hmap, str, hstr, hdigit⟩ := scan_spec s 0 ds (by omega) hscan
  have hdashes : dashesFrom 0 = 4 := rfl
  have hsize : str.length = 2 * 16 := by
    rw [hstr, List.length_map] at hcount
    omega
  rw [toString, uuidToString_eq, ← hu, hmap, hstr, hexDigits_pairBytes 16 str hsize hdigit]

theorem uuidFromString_isSome {s : Bytes} (hlen : 36 ≤ s.length) :
    (uuidFromString s).isSome ↔ ∀ i < 36, ∃ c, s[i]? = some c ∧
      if IsDash i then c = char '-' else isxdigit c = true := by
  rw [uuidFromString, Option.isSome_map, scan_isSome]
  constructor
  · intro h i hi
    have hget : s[i]? = some s[i] := List.getElem?_eq_getElem (by omega)
    have hi' := h i s[i] (by rw [List.getElem?_take, if_pos hi, hget])
    rw [Nat.zero_add] at hi'
    exact ⟨s[i], hget, hi'⟩
  · intro h j c hc
    rw [List.getElem?_take] at hc
    split at hc
    · next hj =>
      obtain ⟨d, hd, hcond⟩ := h j hj
      rw [hc] at hd
      cases hd
      rw [Nat.zero_add]
      exact hcond
    · cases hc

/-- The format of the text, of bytes or of characters. -/
def Format {α : Type} (isDash isDigit : α → Prop) (s : List α) : Prop :=
  s.length = 36 ∧ ∀ i < 36, ∃ c, s[i]? = some c ∧ if IsDash i then isDash c else isDigit c

/-! ### Unicode strings -/

def IsHexDigit (c : Char) : Prop :=
  ('0' ≤ c ∧ c ≤ '9') ∨ ('A' ≤ c ∧ c ≤ 'F') ∨ ('a' ≤ c ∧ c ≤ 'f')

theorem ascii_spec : ∀ n < 128, (char (Char.ofNat n) = char '-' ↔ Char.ofNat n = '-') ∧
    (isxdigit (char (Char.ofNat n)) = true ↔ IsHexDigit (Char.ofNat n)) ∧
    Char.ofNat (tolower (char (Char.ofNat n))).toNat = (Char.ofNat n).toLower := by
  unfold IsHexDigit
  decide +kernel

theorem byte_lt : ∀ b, (b = char '-' ∨ isxdigit b = true) → b.toNat < 128 :=
  forall_uint8 (by decide +kernel)

/-- A character outside of ASCII starts with a byte that is accepted nowhere. -/
theorem utf8EncodeChar_cases (c : Char) :
    (c.toNat < 128 ∧ String.utf8EncodeChar c = [char c]) ∨
      ∃ b bs, String.utf8EncodeChar c = b :: bs ∧ 128 ≤ b.toNat := by
  unfold String.utf8EncodeChar
  simp only
  split_ifs with h1 h2 h3
  · exact Or.inl ⟨Nat.lt_succ_of_le h1, rfl⟩
  · refine Or.inr ⟨_, _, rfl, ?_⟩
    rw [UInt8.toNat_ofNat']
    omega
  · refine Or.inr ⟨_, _, rfl, ?_⟩
    rw [UInt8.toNat_ofNat']
    omega
  · refine Or.inr ⟨_, _, rfl, ?_⟩
    rw [UInt8.toNat_ofNat']
    omega

theorem utf8_ascii (s : List Char) (h : ∀ c ∈ s, c.toNat < 128) : utf8 s = s.map char := by
  induction s with
  | nil => rfl
  | cons c s ih =>
    have hc : String.utf8EncodeChar c = [char c] := by
      rcases utf8EncodeChar_cases c with hc | hc
      · exact hc.2
      · obtain ⟨b, bs, hb, -⟩ := hc
        have hlt := h c (List.mem_cons_self ..)
        unfold String.utf8EncodeChar
        simp only
        have hle : c.val.toNat ≤ 127 := Nat.le_of_lt_succ hlt
        rw [if_pos hle]
        rfl
    rw [utf8, List.flatMap_cons, hc, ← utf8, ih fun d hd => h d (List.mem_cons_of_mem _ hd)]
    rfl

/-- When the bytes at the indices of the characters are accepted, all characters are ASCII. -/
theorem ascii_of_wellformed (s : List Char) : ∀ i, Wellformed i ((utf8 s).take s.length) →
    ∀ c ∈ s, c.toNat < 128 := by
  induction s with
  | nil => exact fun i _ c hc => by cases hc
  | cons c s ih =>
    intro i h
    have hutf8 : utf8 (c :: s) = String.utf8EncodeChar c ++ utf8 s := List.flatMap_cons ..
    rw [hutf8, List.length_cons] at h
    rcases utf8EncodeChar_cases c with hc | hc
    · rw [hc.2, List.singleton_append, List.take_succ_cons, wellformed_cons] at h
      intro d hd
      rcases List.mem_cons.mp hd with hd | hd
      · rw [hd]
        exact hc.1
      · exact ih (i + 1) h.2 d hd
    · obtain ⟨b, bs, hb, hbig⟩ := hc
      rw [hb, List.cons_append, List.take_succ_cons, wellformed_cons] at h
      have hor : b = char '-' ∨ isxdigit b = true := by
        have h1 := h.1
        split at h1
        · exact Or.inl h1
        · exact Or.inr h1
      have hlt := byte_lt b hor
      omega

theorem AcceptsGodot.utf8 {s : List Char} (h : AcceptsGodot s) :
    (∀ c ∈ s, c.toNat < 128) ∧ utf8 s = s.map char := by
  have hwell := h.2
  rw [uuidFromString, Option.isSome_map, scan_isSome, ← h.1] at hwell
  have hascii := ascii_of_wellformed s 0 hwell
  exact ⟨hascii, utf8_ascii s hascii⟩

/-- A text form of UUIDs, over strings of `α`. -/
structure TextCodec {α : Type} (toText : UUID → List α) (ofText : List α → UUID)
    (accepts : List α → Prop) (isDash isDigit : α → Prop) (lower : α → α) : Prop where
  round : ∀ u, accepts (toText u) ∧ (ofText (toText u)).eq u = true ∧ ofText (toText u) = u
  accepts_iff : ∀ s, accepts s ↔ Format isDash isDigit s
  lower_eq : ∀ s, accepts s → toText (ofText s) = s.map lower
  rejected : ∀ s, ¬ accepts s → ofText s = zero

theorem ofString_of_accepts {s : Bytes} {u : UUID} (hlen : s.length = 36)
    (h : uuidFromString s = some u) : ofString s = u := by
  rw [ofString, if_neg (not_not.mpr hlen), h, Option.getD_some]

theorem ofGodotString_of_accepts {s : List Char} {u : UUID} (hlen : s.length = 36)
    (h : uuidFromString (utf8 s) = some u) : ofGodotString s = u := by
  rw [ofGodotString, if_neg (not_not.mpr hlen), h, Option.getD_some]

theorem string_codec :
    TextCodec toString ofString Accepts (· = char '-') (isxdigit · = true) tolower where
  round u := by
    have hread := uuidFromString_toString u
    have hof := ofString_of_accepts (toString_length u) hread
    exact ⟨⟨toString_length u, by rw [hread]; rfl⟩, by rw [hof, eq_refl], hof⟩
  accepts_iff s := by
    refine and_congr_right fun hlen => ?_
    exact uuidFromString_isSome (Nat.le_of_eq hlen.symm)
  lower_eq s h := by
    obtain ⟨u, hu⟩ := Option.isSome_iff_exists.mp h.2
    rw [ofString_of_accepts h.1 hu, toString_of_uuidFromString h.1 hu]
  rejected s h := by
    by_cases hlen : s.length = 36
    · have hnone : uuidFromString s = none :=
        Option.not_isSome_iff_eq_none.mp fun hsome => h ⟨hlen, hsome⟩
      rw [ofString, if_neg (not_not.mpr hlen), hnone, Option.getD_none]
    · rw [ofString, if_pos hlen]

/-- A string of characters is accepted as the string of its bytes is. -/
theorem acceptsGodot_iff (s : List Char) :
    AcceptsGodot s ↔ (∀ c ∈ s, c.toNat < 128) ∧ Accepts (s.map char) := by
  constructor
  · intro h
    obtain ⟨hascii, hutf8⟩ := h.utf8
    refine ⟨hascii, by rw [List.length_map, h.1], ?_⟩
    rw [← hutf8]
    exact h.2
  · intro ⟨hascii, hlen, hsome⟩
    rw [List.length_map] at hlen
    rw [← utf8_ascii s hascii] at hsome
    exact ⟨hlen, hsome⟩

theorem ascii_char {c : Char} (hc : c.toNat < 128) : (char c = char '-' ↔ c = '-') ∧
    (isxdigit (char c) = true ↔ IsHexDigit c) ∧
    Char.ofNat (tolower (char c)).toNat = c.toLower := by
  have h := ascii_spec c.toNat hc
  rwa [Char.ofNat_toNat] at h

theorem ascii_of_format {c : Char} (h : c = '-' ∨ IsHexDigit c) : c.toNat < 128 := by
  rcases h with rfl | ⟨_, h⟩ | ⟨_, h⟩ | ⟨_, h⟩
  · decide
  · exact Nat.lt_of_le_of_lt h (by decide)
  · exact Nat.lt_of_le_of_lt h (by decide)
  · exact Nat.lt_of_le_of_lt h (by decide)

theorem format_ascii {s : List Char} (h : Format (· = '-') IsHexDigit s) :
    ∀ c ∈ s, c.toNat < 128 := by
  intro c hc
  obtain ⟨i, hi, rfl⟩ := List.mem_iff_getElem.mp hc
  obtain ⟨d, hd, hcond⟩ := h.2 i (by rw [← h.1]; exact hi)
  rw [List.getElem?_eq_getElem hi, Option.some_inj] at hd
  rw [hd]
  split at hcond
  · exact ascii_of_format (Or.inl hcond)
  · exact ascii_of_format (Or.inr hcond)

theorem format_map_char {s : List Char} (hascii : ∀ c ∈ s, c.toNat < 128) :
    Format (· = char '-') (isxdigit · = true) (s.map char) ↔ Format (· = '-') IsHexDigit s := by
  unfold Format
  rw [List.length_map]
  refine and_congr_right fun hlen => forall₂_congr fun i hi => ?_
  have hget : s[i]? = some s[i] := List.getElem?_eq_getElem (by omega)
  have hchar := ascii_char (hascii s[i] (List.getElem_mem ..))
  simp only [List.getElem?_map, hget, Option.map_some, Option.some_inj, exists_eq_left']
  split
  · exact hchar.1
  · exact hchar.2.1

theorem toString_ascii (u : UUID) : ∀ b ∈ u.toString, b.toNat < 128 := by
  intro b hb
  obtain ⟨i, hi, rfl⟩ := List.mem_iff_getElem.mp hb
  rw [toString_length] at hi
  have hread : (uuidFromString u.toString).isSome := by
    rw [uuidFromString_toString]
    rfl
  have hformat := (uuidFromString_isSome (Nat.le_of_eq (toString_length u).symm)).mp hread
  obtain ⟨d, hd, hcond⟩ := hformat i hi
  rw [List.getElem?_eq_getElem (by rw [toString_length]; exact hi), Option.some_inj] at hd
  rw [hd]
  split at hcond
  · exact byte_lt d (Or.inl hcond)
  · exact byte_lt d (Or.inr hcond)

theorem char_ofNat : ∀ b : UInt8, b.toNat < 128 →
    char (Char.ofNat b.toNat) = b ∧ (Char.ofNat b.toNat).toNat < 128 :=
  forall_uint8 (by decide +kernel)

theorem toGodotString_eq (u : UUID) :
    u.toGodotString.map char = u.toString ∧ ∀ c ∈ u.toGodotString, c.toNat < 128 := by
  constructor
  · rw [toGodotString, List.map_map]
    have hid : ∀ b ∈ u.toString, (char ∘ fun c : UInt8 => Char.ofNat c.toNat) b = id b :=
      fun b hb => (char_ofNat b (toString_ascii u b hb)).1
    exact (List.map_congr_left hid).trans (List.map_id _)
  · intro c hc
    obtain ⟨b, hb, rfl⟩ := List.mem_map.mp hc
    exact (char_ofNat b (toString_ascii u b hb)).2

theorem godotString_codec :
    TextCodec toGodotString ofGodotString AcceptsGodot (· = '-') IsHexDigit Char.toLower where
  round u := by
    obtain ⟨hmap, hascii⟩ := toGodotString_eq u
    have hutf8 := utf8_ascii _ hascii
    have hlen : u.toGodotString.length = 36 := by
      rw [toGodotString, List.length_map]
      exact toString_length u
    have hread : uuidFromString (utf8 u.toGodotString) = some u := by
      rw [hutf8, hmap, uuidFromString_toString]
    have hof := ofGodotString_of_accepts hlen hread
    exact ⟨⟨hlen, by rw [hread]; rfl⟩, by rw [hof, eq_refl], hof⟩
  accepts_iff s := by
    rw [acceptsGodot_iff]
    constructor
    · intro ⟨hascii, haccepts⟩
      exact (format_map_char hascii).mp ((string_codec.accepts_iff _).mp haccepts)
    · intro h
      have hascii := format_ascii h
      exact ⟨hascii, (string_codec.accepts_iff _).mpr ((format_map_char hascii).mpr h)⟩
  lower_eq s h := by
    obtain ⟨hascii, hutf8⟩ := h.utf8
    obtain ⟨u, hu⟩ := Option.isSome_iff_exists.mp h.2
    have htext : u.toString = (s.map char).map tolower := by
      refine toString_of_uuidFromString (by rw [List.length_map, h.1]) ?_
      rw [← hutf8, hu]
    rw [ofGodotString_of_accepts h.1 hu, toGodotString]
    rw [toString] at htext
    rw [htext, List.map_map, List.map_map]
    exact List.map_congr_left fun c hc => (ascii_char (hascii c hc)).2.2
  rejected s h := by
    by_cases hlen : s.length = 36
    · have hnone : uuidFromString (utf8 s) = none :=
        Option.not_isSome_iff_eq_none.mp fun hsome => h ⟨hlen, hsome⟩
      rw [ofGodotString, if_neg (not_not.mpr hlen), hnone, Option.getD_none]
    · rw [ofGodotString, if_pos hlen]

/-- Both constructors read exactly the texts of the format, and undo the text forms. -/
theorem uuid_codec :
    TextCodec toString ofString Accepts (· = char '-') (isxdigit · = true) tolower ∧
      TextCodec toGodotString ofGodotString AcceptsGodot (· = '-') IsHexDigit Char.toLower :=
  ⟨string_codec, godotString_codec⟩

end UUID
end CosmicArchitect.Util
