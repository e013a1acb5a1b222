import CosmicArchitect.Library.Machine
import CosmicArchitect.Util.SwapBuffer
import Mathlib.Logic.Function.Basic

/-!
# The cache of universe information (UniverseServer/UniverseCache.cpp)

The writer thread calls `UpdateInfo`, `UpdateInfoMap` and `PublishUpdates`, the reader thread
`RetrieveUpdates`, always on the same cache. A dictionary is a value of any type.
-/

namespace CosmicArchitect.UniverseServer
open Util

/-- `k_invalid_id` is 0. -/
abbrev ID := Int64

def invalidId : ID := 0

/-- `UniverseCache::Type` -/
inductive CacheType
  | universe | galaxy | account | player | fragment | chatChannel | party | entity | volume
  | galaxyRegion | galaxyObject | currency | bank | bankInterface | good | internet | website
  | webpage | role | permission | faction | language | culture | inventory | ability | spell
deriving DecidableEq, Repr

/-- The members of type `Info`. -/
inductive InfoMember
  | universeInfo | galaxyInfo | accountInfo | playerInfo
deriving DecidableEq, Repr

/-- The members of type `InfoMap`. -/
inductive InfoMapMember
  | playerInfoMap | fragmentInfoMap | chatChannelInfoMap | partyInfoMap | entityInfoMap
  | volumeInfoMap | galaxyRegionInfoMap | galaxyObjectInfoMap | currencyInfoMap | bankInfoMap
  | bankInterfaceInfoMap | goodInfoMap | internetInfoMap | websiteInfoMap | webpageInfoMap
  | roleInfoMap | permissionInfoMap | factionInfoMap | languageInfoMap | cultureInfoMap
  | inventoryInfoMap | abilityInfoMap | spellInfoMap
deriving DecidableEq, Repr

structure UniverseCache (Info : Type) where
  info : InfoMember → Info
  infoMap : InfoMapMember → ID → Option Info

def getInfo : CacheType → Option InfoMember
  | .universe => some .universeInfo
  | .galaxy => some .galaxyInfo
  | .account => some .accountInfo
  | .player => some .playerInfo
  | _ => none

def getInfoMap : CacheType → Option InfoMapMember
  | .player => some .playerInfoMap
  | .fragment => some .fragmentInfoMap
  | .chatChannel => some .chatChannelInfoMap
  | .party => some .partyInfoMap
  | .entity => some .entityInfoMap
  | .volume => some .volumeInfoMap
  | .galaxyRegion => some .galaxyRegionInfoMap
  | .galaxyObject => some .galaxyObjectInfoMap
  | .currency => some .currencyInfoMap
  | .bank => some .bankInfoMap
  | .bankInterface => some .bankInterfaceInfoMap
  | .good => some .goodInfoMap
  | .internet => some .internetInfoMap
  | .website => some .websiteInfoMap
  | .webpage => some .webpageInfoMap
  | .role => some .roleInfoMap
  | .permission => some .permissionInfoMap
  | .faction => some .factionInfoMap
  | .language => some .languageInfoMap
  | .culture => some .cultureInfoMap
  | .inventory => some .inventoryInfoMap
  | .ability => some .abilityInfoMap
  | .spell => some .spellInfoMap
  | .universe | .galaxy | .account => none

/-- The union of an `InfoUpdate`. -/
inductive Target
  | info (member : InfoMember)
  | infoMap (member : InfoMapMember)
deriving DecidableEq, Repr

structure InfoUpdate (Info : Type) where
  target : Target
  key : ID
  value : Info
deriving DecidableEq, Repr

variable {Info : Type}

/-- The update of `UpdateInfo` (lines 71-86); `none` for an invalid type. -/
def infoUpdate (type : CacheType) (info : Info) : Option (InfoUpdate Info) :=
  (getInfo type).map fun member => ⟨.info member, invalidId, info⟩

/-- The update of `UpdateInfoMap` (lines 88-103); `none` for an invalid type. -/
def infoMapUpdate (type : CacheType) (id : ID) (info : Info) : Option (InfoUpdate Info) :=
  (getInfoMap type).map fun member => ⟨.infoMap member, id, info⟩

/- The body of the loop of `RetrieveUpdates`; `none` when the key selects the member of the
   union that was not written. -/
def InfoUpdate.apply (out : UniverseCache Info) (update : InfoUpdate Info) :
    Option (UniverseCache Info) :=
  if update.key = invalidId then
    match update.target with
    | .info member => some { out with info := Function.update out.info member update.value }
    | .infoMap _ => none
  else
    match update.target with
    | .info _ => none
    | .infoMap member => some
      { out with
        infoMap := Function.update out.infoMap member
          (Function.update (out.infoMap member) update.key (some update.value)) }

/-- Where the reader is in `RetrieveUpdates`. -/
inductive Reader (Info : Type)
  | idle
  | retrieve (place : SwapBuffer.Place) (updatesRead : List (InfoUpdate Info))
  | apply (updatesRead : List (InfoUpdate Info))
deriving DecidableEq, Repr

/- The updater with its two threads and the cache of the reader. `writer` is the place in
   `PublishUpdates`. No step reads `issued` and `applied`, the updates so far. -/
structure CacheUpdater (Info : Type) where
  cache : UniverseCache Info
  updatesWrite : List (InfoUpdate Info) := []
  updatesSwap : SwapBuffer (List (InfoUpdate Info)) := { value := [] }
  writer : Option SwapBuffer.Place := none
  reader : Reader Info := .idle
  issued : List (InfoUpdate Info) := []
  applied : List (InfoUpdate Info) := []

namespace CacheUpdater

inductive Label (Info : Type)
  | updateInfo (type : CacheType) (info : Info)
  | updateInfoMap (type : CacheType) (id : ID) (info : Info)
  | publishUpdates
  | retrieveUpdates
  | writer
  | reader

/-- `AddInfoUpdate`, skipped for an invalid type. -/
def addInfoUpdate (m : CacheUpdater Info) : Option (InfoUpdate Info) → CacheUpdater Info
  | none => m
  | some update =>
    { m with updatesWrite := m.updatesWrite ++ [update], issued := m.issued ++ [update] }

/-- The next step of the writer inside `PublishUpdates`. -/
def writerNext (m : CacheUpdater Info) : Option (CacheUpdater Info) :=
  m.writer.map fun place =>
    let next := m.updatesSwap.publish m.updatesWrite place
    { m with updatesSwap := next.1, updatesWrite := next.2.1, writer := next.2.2 }

/-- The next step of the reader inside `RetrieveUpdates` (lines 112-127). -/
def readerNext (m : CacheUpdater Info) : Option (CacheUpdater Info) :=
  match m.reader with
  | .idle => none
  | .retrieve place updatesRead =>
    let next := m.updatesSwap.retrieve updatesRead place
    some
      { m with
        updatesSwap := next.1
        reader := match next.2.2 with
          | some place' => .retrieve place' next.2.1
          | none => .apply next.2.1 }
  | .apply [] => some { m with reader := .idle }
  | .apply (update :: rest) => (update.apply m.cache).map fun cache =>
    { m with cache := cache, reader := .apply rest, applied := m.applied ++ [update] }

def step (m : CacheUpdater Info) : Label Info → Option (CacheUpdater Info)
  | .updateInfo type info =>
    if m.writer = none then some (m.addInfoUpdate (infoUpdate type info)) else none
  | .updateInfoMap type id info =>
    if m.writer = none then some (m.addInfoUpdate (infoMapUpdate type id info)) else none
  | .publishUpdates => if m.writer = none then some { m with writer := some .load } else none
  | .retrieveUpdates =>
    match m.reader with
    | .idle => some { m with reader := .retrieve .load [] }
    | _ => none
  | .writer => m.writerNext
  | .reader => m.readerNext

def cacheMachine (cache : UniverseCache Info) :
    Library.Machine (CacheUpdater Info) (Label Info) where
  init m := m = { cache := cache }
  step := step

end CacheUpdater
end CosmicArchitect.UniverseServer
