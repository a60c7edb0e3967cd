import Yunogram.Machinery.DataStream
import Yunogram.Machinery.FlatMap
import Yunogram.Machinery.Span
import Yunogram.Mtproto.TcpProtocol

/-!
# Mtproto/DcOptions — the table of data centre endpoints

`DcOptions` keeps, for every data centre, the endpoints it can be reached at (`mtproto_dc_options`).
`processFromList` builds a new table from a list of options, `applyOneOption` adding each unless its
data centre already has the same address and port; `countOptionsDifference` walks both tables in the
order of their ids, and only when it finds a difference is the table replaced.

A table is `WellFormed` when no data centre is stored without endpoints, every endpoint is stored
under its own id, and no data centre has one address twice.  `DcOptions` carries that as a field.
-/

namespace Yunogram.Mtproto

open Machinery

/-! ## Endpoints -/

abbrev DcId := Qint32

/-- `kDcShift`. -/
def kDcShift : ℤ := 10000

/-- `BareDcId`: the id without its shift. -/
def bareDcId (shiftedDcId : DcId) : DcId := Qint32.wrap (shiftedDcId.1.tmod kDcShift)

/-- `DcOptions::Endpoint`. -/
structure Endpoint where
  id : DcId
  flags : UInt32
  ip : Bytes
  port : Qint32
  secret : Bytes
  deriving DecidableEq

/-- What two endpoints of a data centre are told apart by. -/
def Endpoint.address (endpoint : Endpoint) : Bytes × Qint32 := (endpoint.ip, endpoint.port)

/-- `MTPDdcOption`. -/
structure MTPDdcOption where
  flags : UInt32
  id : DcId
  ipAddress : Bytes
  port : Qint32
  secret : Option Bytes
  deriving DecidableEq

/-- `MTPDcOption`, whose type may be another one than `mtpc_dcOption`. -/
inductive MTPDcOption
  | dcOption (data : MTPDdcOption)
  | other (type : UInt32)
  deriving DecidableEq

/-- The endpoint an option describes. -/
def MTPDdcOption.endpoint (option : MTPDdcOption) : Endpoint :=
  ⟨option.id, option.flags, option.ipAddress, option.port, option.secret.getD []⟩

/-- `MTPDdcOption::Flag::f_cdn`. -/
def fCdn : UInt32 := 8

/-! ## The table -/

/-- The endpoints of every data centre. -/
abbrev DcTable := FlatMap DcId (List Endpoint)

/-- The endpoints stored for a data centre. -/
def DcTable.endpoints (data : DcTable) (id : DcId) : List Endpoint := (data.find? id).getD []

/-- `DcOptions::ApplyOneOption`. -/
def applyOneOption (data : DcTable) (dcId : DcId) (flags : UInt32) (ip : Bytes) (port : Qint32)
    (secret : Bytes) : DcTable × Bool :=
  match data.find? dcId with
  | some list =>
    if list.any fun endpoint => endpoint.ip = ip && endpoint.port = port then (data, false)
    else (data.assign dcId (list ++ [⟨dcId, flags, ip, port, secret⟩]), true)
  | none => (data.emplace dcId [⟨dcId, flags, ip, port, secret⟩], true)

/-- One round of the loop over the options: one of another type is skipped. -/
def applyMtpOption (data : DcTable) : MTPDcOption → DcTable
  | .other _ => data
  | .dcOption option =>
    (applyOneOption data option.id option.flags option.ipAddress option.port
      (option.secret.getD [])).1

/-- The table the options are collected in. -/
def applyOptions (data : DcTable) (options : List MTPDcOption) : DcTable :=
  options.foldl applyMtpOption data

/-- `find` of `CountOptionsDifference`. -/
def findAddress (list : List Endpoint) (what : Endpoint) : Bool :=
  list.any fun endpoint => endpoint.ip = what.ip && endpoint.port = what.port

/-- `equal` of `CountOptionsDifference`. -/
def equalAddresses (m n : List Endpoint) : Bool :=
  m.length = n.length && m.all (findAddress n)

/-- `CountOptionsDifference`: an iterator at its end counts as the greatest id, and the last branch
reads both iterators whether or not they are at their ends. -/
def countOptionsDifference :
    List (DcId × List Endpoint) → List (DcId × List Endpoint) → Except Fault (List DcId)
  | [], [] => .ok []
  | i :: a, [] =>
    if i.1 < Qint32.max then (countOptionsDifference a []).map (i.1 :: ·)
    else .error .outOfBounds
  | [], j :: b =>
    if j.1 < Qint32.max then (countOptionsDifference [] b).map (j.1 :: ·)
    else .error .outOfBounds
  | i :: a, j :: b =>
    if i.1 < j.1 then (countOptionsDifference a (j :: b)).map (i.1 :: ·)
    else if j.1 < i.1 then (countOptionsDifference (i :: a) b).map (j.1 :: ·)
    else if equalAddresses i.2 j.2 then countOptionsDifference a b
    else (countOptionsDifference a b).map (i.1 :: ·)
termination_by a b => a.length + b.length

/-- `computeCdnDcIds`: the first endpoint of a data centre says whether it is a CDN one. -/
def computeCdnDcIds (data : DcTable) : Except Fault (FlatMap DcId Unit) :=
  data.entries.foldlM (fun ids item =>
    match item.2 with
    | [] => .error .assertion
    | front :: _ =>
      .ok (if front.flags &&& fCdn ≠ 0 then ids.emplace (bareDcId item.1) () else ids))
    FlatMap.empty

/-- No data centre without endpoints, no endpoint under another id, no address twice. -/
structure WellFormed (data : DcTable) : Prop where
  nonempty : ∀ id list, data.find? id = some list → list ≠ []
  own : ∀ id, ∀ e ∈ data.endpoints id, e.id = id
  addresses : ∀ id, ((data.endpoints id).map Endpoint.address).Nodup

section

variable {data : DcTable} {id dcId : DcId} {flags : UInt32} {ip : Bytes} {port : Qint32}
  {secret : Bytes}

theorem any_address {list : List Endpoint} {ip : Bytes} {port : Qint32} :
    (list.any fun endpoint => endpoint.ip = ip && endpoint.port = port) = true ↔
      (ip, port) ∈ list.map Endpoint.address := by
  simp only [List.any_eq_true, Bool.and_eq_true, decide_eq_true_eq, List.mem_map, Endpoint.address,
    Prod.mk.injEq]

theorem mem_endpoints {e : Endpoint} :
    e ∈ data.endpoints id ↔ ∃ list, data.find? id = some list ∧ e ∈ list := by
  rw [DcTable.endpoints]
  cases data.find? id with
  | none => simp
  | some list => simp

/-- **What `applyOneOption` does to the endpoints of a data centre.** -/
theorem endpoints_applyOneOption :
    (applyOneOption data dcId flags ip port secret).1.endpoints id
      = if id = dcId ∧ (ip, port) ∉ (data.endpoints dcId).map Endpoint.address then
          data.endpoints id ++ [⟨dcId, flags, ip, port, secret⟩]
        else data.endpoints id := by
  rw [applyOneOption]
  cases hfind : data.find? dcId with
  | none =>
    have hnil : data.endpoints dcId = [] := by rw [DcTable.endpoints, hfind, Option.getD_none]
    dsimp only
    rw [hnil, DcTable.endpoints, FlatMap.find?_emplace_of_none hfind]
    by_cases hid : id = dcId
    · rw [if_pos hid, if_pos ⟨hid, List.not_mem_nil⟩, hid, hnil]
      rfl
    · rw [if_neg hid, if_neg fun h => hid h.1, DcTable.endpoints]
  | some list =>
    have hlist : data.endpoints dcId = list := by rw [DcTable.endpoints, hfind, Option.getD_some]
    dsimp only
    rw [hlist]
    split_ifs with hany hnew hnew
    · exact absurd (any_address.mp hany) hnew.2
    · rfl
    · obtain ⟨rfl, -⟩ := hnew
      rw [DcTable.endpoints, FlatMap.find?_assign, if_pos rfl, hlist, Option.getD_some]
    · have hid : id ≠ dcId := fun h => hnew ⟨h, fun h' => hany (any_address.mpr h')⟩
      rw [DcTable.endpoints, FlatMap.find?_assign, if_neg hid, DcTable.endpoints]

/-- A data centre the new table stores was stored, or has just got an endpoint. -/
theorem find?_applyOneOption {list : List Endpoint}
    (h : (applyOneOption data dcId flags ip port secret).1.find? id = some list) :
    data.find? id = some list ∨ list ≠ [] := by
  rw [applyOneOption] at h
  cases hfind : data.find? dcId with
  | none =>
    rw [hfind] at h
    dsimp only at h
    rw [FlatMap.find?_emplace_of_none hfind] at h
    split_ifs at h with hid
    · exact .inr (Option.some.inj h ▸ List.cons_ne_nil _ _)
    · exact .inl h
  | some stored =>
    rw [hfind] at h
    dsimp only at h
    split_ifs at h with hany
    · exact .inl h
    · rw [FlatMap.find?_assign] at h
      split_ifs at h with hid
      · exact .inr (Option.some.inj h ▸ List.append_ne_nil_of_right_ne_nil _ (List.cons_ne_nil _ _))
      · exact .inl h

/-- **`applyOneOption` keeps the table well formed.** -/
theorem WellFormed.applyOneOption (h : WellFormed data) :
    WellFormed (applyOneOption data dcId flags ip port secret).1 where
  nonempty id list hlist := (find?_applyOneOption hlist).elim (h.nonempty id list) fun h => h
  own id e he := by
    rw [endpoints_applyOneOption] at he
    split_ifs at he with hnew
    · rcases List.mem_append.mp he with he | he
      · exact h.own id e he
      · rw [List.mem_singleton.mp he]
        exact hnew.1.symm
    · exact h.own id e he
  addresses id := by
    rw [endpoints_applyOneOption]
    split_ifs with hnew
    · obtain ⟨rfl, hnew⟩ := hnew
      rw [List.map_append, List.nodup_append]
      refine ⟨h.addresses id, List.nodup_singleton _, fun a ha b hb hab => hnew ?_⟩
      rw [List.map_singleton, List.mem_singleton] at hb
      rwa [hab, hb] at ha
    · exact h.addresses id

end

theorem WellFormed.empty : WellFormed FlatMap.empty where
  nonempty _ _ h := nomatch h
  own _ _ he := absurd he List.not_mem_nil
  addresses _ := List.nodup_nil

theorem WellFormed.applyOptions {data : DcTable} (h : WellFormed data) (options : List MTPDcOption) :
    WellFormed (applyOptions data options) := by
  induction options generalizing data with
  | nil => exact h
  | cons option options ih =>
    cases option with
    | other => exact ih h
    | dcOption option => exact ih h.applyOneOption

/-- The assertion of `computeCdnDcIds` holds of a well-formed table. -/
theorem WellFormed.computeCdnDcIds {data : DcTable} (h : WellFormed data) :
    ∃ ids, computeCdnDcIds data = .ok ids := by
  have hstored : ∀ item ∈ data.entries, item.2 ≠ [] := fun item hitem =>
    h.nonempty item.1 item.2 (FlatMap.find?_eq_some.mpr hitem)
  rw [Mtproto.computeCdnDcIds]
  generalize (FlatMap.empty : FlatMap DcId Unit) = ids
  generalize data.entries = entries at hstored
  induction entries generalizing ids with
  | nil => exact ⟨ids, rfl⟩
  | cons item entries ih =>
    obtain ⟨id, list⟩ := item
    cases list with
    | nil => exact absurd rfl (hstored (id, []) List.mem_cons_self)
    | cons front rest => exact ih _ fun item hitem => hstored item (List.mem_cons_of_mem _ hitem)

/-! ## The options -/

/-- `Environment`. -/
inductive Environment
  | production
  | test
  deriving DecidableEq

/-- `DcOptions`, over the type of the public keys. -/
structure DcOptions (Key : Type) where
  environment : Environment
  data : DcTable
  wellFormed : WellFormed data
  cdnDcIds : FlatMap DcId Unit
  cdnPublicKeys : FlatMap DcId (FlatMap (Fin (2 ^ 64)) Key)
  immutable : Bool

variable {Key : Type}

/-- The table `processFromList` collects the options in. -/
def DcOptions.collected (s : DcOptions Key) (options : List MTPDcOption) (overwrite : Bool) :
    DcTable :=
  applyOptions (if overwrite then FlatMap.empty else s.data) options

theorem DcOptions.wellFormed_collected (s : DcOptions Key) (options : List MTPDcOption)
    (overwrite : Bool) : WellFormed (s.collected options overwrite) := by
  refine WellFormed.applyOptions ?_ options
  split
  · exact WellFormed.empty
  · exact s.wellFormed

/-- `DcOptions::processFromList`: the new state, and the ids reported as changed.  The CDN ids are
computed anew when the write lock is released. -/
def DcOptions.processFromList (s : DcOptions Key) (options : List MTPDcOption) (overwrite : Bool) :
    Except Fault (DcOptions Key × List DcId) :=
  if options.isEmpty || s.immutable then .ok (s, [])
  else do
    let data := s.collected options overwrite
    let difference ← countOptionsDifference s.data.entries data.entries
    if difference.isEmpty then
      let cdnDcIds ← computeCdnDcIds s.data
      .ok ({ s with cdnDcIds }, difference)
    else
      let cdnDcIds ← computeCdnDcIds data
      .ok ({ s with data, wellFormed := s.wellFormed_collected options overwrite, cdnDcIds },
        difference)

/-- `DcOptions::setFromList`. -/
def DcOptions.setFromList (s : DcOptions Key) (options : List MTPDcOption) :
    Except Fault (DcOptions Key × List DcId) := s.processFromList options true

/-- `DcOptions::addFromList`. -/
def DcOptions.addFromList (s : DcOptions Key) (options : List MTPDcOption) :
    Except Fault (DcOptions Key × List DcId) := s.processFromList options false

end Yunogram.Mtproto
