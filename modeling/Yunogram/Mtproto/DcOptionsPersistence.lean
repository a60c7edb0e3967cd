import Yunogram.Mtproto.DcOptionsStorage
import Yunogram.Mtproto.DcOptionsUpdate

/-!
# Mtproto/DcOptionsPersistence — when stored options are read back

What `serialize` writes is read back by `constructFromSerialized` piece by piece: an endpoint whose
address and secret have the sizes the reader accepts, and every key that came from a file.  The setters
do not check these sizes, so a state survives exactly when `Storable` holds of it.
-/

namespace Yunogram.Mtproto

open Machinery DataStream

/-! ## Endpoints -/

/-- The sizes the reader accepts. -/
def Endpoint.Readable (endpoint : Endpoint) : Prop :=
  1 ≤ endpoint.ip.length ∧ endpoint.ip.length ≤ 45 ∧ endpoint.secret.length ≤ 32

section

variable {endpoint : Endpoint} {rest : Bytes} {stream stream' : DataStream} {version : Qint32}

theorem ofNat_toBits_wrap (flags : UInt32) :
    UInt32.ofNat (Qint32.wrap flags.toNat).toBits = flags := by
  have hlt : flags.toNat < 2 ^ 32 := flags.toNat_lt
  have hmod : ((flags.toNat : ℤ) % 2 ^ 32).toNat = flags.toNat := by omega
  rw [Qint32.toBits_wrap, hmod, UInt32.ofNat_toNat]

/-- A size as it is written. -/
theorem wrap_length {n : ℕ} (h : n < 2 ^ 31) : (Qint32.wrap n).1 = n := by
  rw [Qint32.wrap_eq ⟨by omega, by exact_mod_cast h⟩]

theorem readSecret_append {secret : Bytes} (h : secret.length ≤ 32) :
    readSecret kVersion ⟨int32Bytes (Qint32.wrap secret.length) ++
        (rawBytes secret (Qint32.wrap secret.length) ++ rest), true⟩
      = some (secret, ⟨rest, true⟩) := by
  have hsize : (Qint32.wrap secret.length).1 = secret.length := wrap_length (by omega)
  rw [readSecret, if_pos (by decide), bind_of_some (reads_of_eq (readInt32_append _)), hsize,
    bind_of_some (require_of (by rw [kMaxSecretSize]; omega)), Int.toNat_natCast,
    rawBytes_length (by omega)]
  exact reads_of_eq (readRaw_append secret rest true)

/-- **An endpoint with sizes the reader accepts is read back.** -/
theorem readEndpoint_append (h : endpoint.Readable) (rest : Bytes) :
    readEndpoint kVersion ⟨endpointBytes endpoint ++ rest, true⟩
      = some (endpoint, ⟨rest, true⟩) := by
  obtain ⟨hpositive, hip, hsecret⟩ := h
  have hsize : (Qint32.wrap endpoint.ip.length).1 = endpoint.ip.length := wrap_length (by omega)
  have hraw : rawBytes endpoint.ip (Qint32.wrap endpoint.ip.length) = endpoint.ip :=
    rawBytes_length (by omega)
  rw [readEndpoint, endpointBytes]
  simp only [List.append_assoc]
  rw [bind_of_some (reads_of_eq (readInt32_append _)),
    bind_of_some (reads_of_eq (readInt32_append _)),
    bind_of_some (reads_of_eq (readInt32_append _)),
    bind_of_some (reads_of_eq (readInt32_append _)), hsize,
    bind_of_some (require_of (by rw [kMaxIpSize]; omega)), Int.toNat_natCast,
    hraw,
    bind_of_some (reads_of_eq (readRaw_append endpoint.ip _ true)),
    bind_of_some (readSecret_append hsecret), bind_of_some rfl, ofNat_toBits_wrap]
  rfl

/-- A secret that leaves a good status was read from one, and has an accepted size. -/
theorem of_readSecret {secret : Bytes} (h : readSecret version stream = some (secret, stream'))
    (hgood : stream'.ok = true) : stream.ok = true ∧ secret.length ≤ 32 := by
  rw [readSecret] at h
  split_ifs at h with hversion
  · obtain ⟨size, s₁, hsize, h⟩ := exists_of_bind h
    obtain ⟨_, s₂, hrequire, h⟩ := exists_of_bind h
    obtain ⟨hbounds, rfl⟩ := of_require hrequire
    obtain ⟨rfl, rfl⟩ := of_reads h
    obtain ⟨hok, hlength⟩ := of_readRaw hgood
    obtain ⟨rfl, rfl⟩ := of_reads hsize
    have hok' : (stream.readRaw 4).2.ok = true := hok
    refine ⟨(of_readRaw hok').1, ?_⟩
    rw [kMaxSecretSize] at hbounds
    omega
  · obtain ⟨rfl, rfl⟩ := Prod.mk.inj (Option.some.inj h)
    exact ⟨hgood, Nat.zero_le _⟩

/-- **What is read has them.** -/
theorem readable_of_readEndpoint (h : readEndpoint version stream = some (endpoint, stream')) :
    endpoint.Readable := by
  rw [readEndpoint] at h
  obtain ⟨id, s₁, -, h⟩ := exists_of_bind h
  obtain ⟨flags, s₂, -, h⟩ := exists_of_bind h
  obtain ⟨port, s₃, -, h⟩ := exists_of_bind h
  obtain ⟨ipSize, s₄, -, h⟩ := exists_of_bind h
  obtain ⟨_, s₅, hrequire, h⟩ := exists_of_bind h
  obtain ⟨ip, s₆, hip, h⟩ := exists_of_bind h
  obtain ⟨secret, s₇, hsecret, h⟩ := exists_of_bind h
  obtain ⟨_, s₈, hok, h⟩ := exists_of_bind h
  obtain ⟨hbounds, -⟩ := of_require hrequire
  obtain ⟨rfl, -⟩ := Prod.mk.inj (Option.some.inj h)
  obtain ⟨hok, hsize⟩ := of_readSecret hsecret (of_requireOk hok)
  obtain ⟨rfl, rfl⟩ := of_reads hip
  obtain ⟨-, hlength⟩ := of_readRaw hok
  rw [kMaxIpSize] at hbounds
  refine ⟨?_, ?_, hsize⟩
  · show 1 ≤ (readRaw ipSize.1.toNat s₅).1.length
    omega
  · show (readRaw ipSize.1.toNat s₅).1.length ≤ 45
    omega

/-! ### Collected into a table -/

variable {data : DcTable} {list : List Endpoint} {id : DcId}

/-- **Endpoints with addresses that are new to their data centres are all kept, in their order.** -/
theorem endpoints_foldl_addEndpoint
    (h : ∀ id, ((data.endpoints id ++ list.filter (·.id = id)).map Endpoint.address).Nodup) :
    (list.foldl addEndpoint data).endpoints id = data.endpoints id ++ list.filter (·.id = id) := by
  induction list generalizing data with
  | nil => exact (List.append_nil _).symm
  | cons e list ih =>
    have hnew : e.address ∉ (data.endpoints e.id).map Endpoint.address := by
      intro hmem
      have hnodup := h e.id
      rw [List.filter_cons, if_pos (decide_eq_true rfl), List.map_append, List.nodup_append]
        at hnodup
      exact hnodup.2.2 e.address hmem e.address (List.mem_map_of_mem List.mem_cons_self) rfl
    have hadd : ∀ id, (addEndpoint data e).endpoints id ++ list.filter (·.id = id)
        = data.endpoints id ++ (e :: list).filter (·.id = id) := by
      intro id
      rw [addEndpoint, endpoints_applyOneOption, List.filter_cons]
      by_cases hid : id = e.id
      · rw [if_pos ⟨hid, hnew⟩, if_pos (decide_eq_true hid.symm), List.append_assoc]
        rfl
      · rw [if_neg fun h => hid h.1, if_neg fun h => hid (of_decide_eq_true h).symm]
    rw [List.foldl_cons, ih fun id => (hadd id).symm ▸ h id, hadd]

/-- A kept endpoint is one of those added. -/
theorem mem_of_mem_foldl_addEndpoint {e : Endpoint}
    (h : e ∈ (list.foldl addEndpoint data).endpoints id) : e ∈ data.endpoints id ∨ e ∈ list := by
  induction list generalizing data with
  | nil => exact .inl h
  | cons e' list ih =>
    rcases ih h with h | h
    · rw [addEndpoint, endpoints_applyOneOption] at h
      split_ifs at h
      · refine (List.mem_append.mp h).imp_right fun h => ?_
        obtain rfl : e = e' := List.mem_singleton.mp h
        exact List.mem_cons_self
      · exact .inl h
    · exact .inr (List.mem_cons_of_mem _ h)

/-- Endpoints under their own ids, one vector after the other, are those of a data centre in their
order when the others are left out. -/
theorem filter_flatMap {entries : List (DcId × List Endpoint)}
    (hown : ∀ item ∈ entries, ∀ e ∈ item.2, e.id = item.1)
    (hsorted : entries.Pairwise fun i j => i.1 < j.1) :
    (entries.flatMap Prod.snd).filter (·.id = id) = lookupIn entries id := by
  induction entries with
  | nil => rfl
  | cons item entries ih =>
    obtain ⟨hitem, hown⟩ := List.forall_mem_cons.mp hown
    obtain ⟨hlt, hsorted⟩ := List.pairwise_cons.mp hsorted
    rw [List.flatMap_cons, List.filter_append, ih hown hsorted, lookupIn_cons]
    split_ifs with hid
    · subst hid
      rw [lookupIn_of_lt hlt, List.append_nil, List.filter_eq_self]
      exact fun e he => decide_eq_true (hitem e he)
    · have hnone : item.2.filter (·.id = id) = [] := List.filter_eq_nil_iff.mpr fun e he h =>
        hid ((hitem e he).symm.trans (of_decide_eq_true h))
      rw [hnone, List.nil_append]

/-- **The written endpoints of a data centre are its endpoints, unless it is a temporary one.** -/
theorem filter_storedEndpoints (h : WellFormed data) :
    (storedEndpoints data).filter (·.id = id)
      = if isTemporaryDcId id then [] else data.endpoints id := by
  have hown : ∀ item ∈ (data.filter fun id _ => !isTemporaryDcId id).entries,
      ∀ e ∈ item.2, e.id = item.1 := fun item hitem e he =>
    h.own item.1 e (mem_endpoints.mpr
      ⟨item.2, FlatMap.find?_eq_some.mpr (List.mem_of_mem_filter hitem), he⟩)
  have hfind : lookupIn (data.filter fun id _ => !isTemporaryDcId id).entries id
      = ((data.filter fun id _ => !isTemporaryDcId id).find? id).getD [] := rfl
  refine (filter_flatMap hown (data.filter _).sorted).trans ?_
  rw [hfind, FlatMap.find?_filter, DcTable.endpoints]
  cases data.find? id with
  | none => rw [Option.filter_none, Option.getD_none, ite_self]
  | some list => cases isTemporaryDcId id <;> rfl

/-- **The written endpoints make the table they were taken from, but for temporary ones.** -/
theorem endpoints_foldl_storedEndpoints (h : WellFormed data) :
    ((storedEndpoints data).foldl addEndpoint FlatMap.empty).endpoints id
      = if isTemporaryDcId id then [] else data.endpoints id := by
  rw [endpoints_foldl_addEndpoint, filter_storedEndpoints h]
  · rfl
  · intro id
    rw [filter_storedEndpoints h]
    split_ifs
    · exact List.nodup_nil
    · exact h.addresses id

end

/-! ## Keys -/

section

variable {openssl : OpenSsl} {rest : Bytes}

theorem readBlocks_append (bytes read rest : Bytes) :
    readBlocks bytes.length read ⟨bytes ++ rest, true⟩ = (read ++ bytes, ⟨rest, true⟩) := by
  induction hn : bytes.length using Nat.strong_induction_on generalizing bytes read with
  | _ n ih =>
    subst hn
    rw [readBlocks]
    split_ifs with hzero
    · rw [List.length_eq_zero_iff.mp hzero, List.append_nil, List.nil_append]
    · have hstep : 0 < kStep := by norm_num [kStep]
      have hblock : (bytes.take (min kStep bytes.length)).length = min kStep bytes.length := by
        rw [List.length_take]
        omega
      have hraw : readRaw (min kStep bytes.length) ⟨bytes ++ rest, true⟩
          = (bytes.take (min kStep bytes.length),
            ⟨bytes.drop (min kStep bytes.length) ++ rest, true⟩) := by
        have happend := readRaw_append (bytes.take (min kStep bytes.length))
          (bytes.drop (min kStep bytes.length) ++ rest) true
        rwa [← List.append_assoc, List.take_append_drop, hblock] at happend
      rw [hraw]
      dsimp only
      rw [if_neg (not_not.mpr hblock)]
      have hih := ih (bytes.drop (min kStep bytes.length)).length (by rw [List.length_drop]; omega)
        (bytes.drop (min kStep bytes.length)) (read ++ bytes.take (min kStep bytes.length)) rfl
      rwa [List.append_assoc, List.take_append_drop, List.length_drop] at hih

/-- **Counted bytes are read back.** -/
theorem readVector_append {bytes : Bytes} (h : bytes.length < 2 ^ 31) (rest : Bytes) :
    readVector ⟨vectorBytes bytes ++ rest, true⟩ = (bytes, ⟨rest, true⟩) := by
  rw [readVector, vectorBytes]
  split_ifs with hempty
  · rw [readUInt32_append (by norm_num), List.isEmpty_iff.mp hempty]
    rfl
  · have hmod : bytes.length % 2 ^ 32 = bytes.length := Nat.mod_eq_of_lt (by omega)
    rw [hmod, rawBytes_length h, List.append_assoc, readUInt32_append (by omega)]
    dsimp only
    rw [if_neg, readBlocks_append, List.nil_append]
    rintro (hbad | hmax)
    · exact nomatch hbad
    · omega

theorem ofBigEndian_toBytes (number : ℕ) : ofBigEndian (toBytes number) = number := by
  have hdigits : ∀ digits : List ℕ, (∀ d ∈ digits, d < 256) →
      ofBigEndian (digits.map UInt8.ofNat).reverse = Nat.ofDigits 256 digits := by
    intro digits hlt
    induction digits with
    | nil => rfl
    | cons d digits ih =>
      obtain ⟨hd, hlt⟩ := List.forall_mem_cons.mp hlt
      rw [List.map_cons, List.reverse_cons, ofBigEndian_concat, ih hlt, Nat.ofDigits_cons,
        UInt8.toNat_ofNat', Nat.mod_eq_of_lt hd]
      omega
  rw [toBytes, hdigits _ fun d hd => Nat.digits_lt_base (by norm_num) hd, Nat.ofDigits_digits]

theorem toBytes_ne_nil {number : ℕ} (h : 0 < number) : toBytes number ≠ [] := by
  rw [toBytes, ne_eq, List.reverse_eq_nil_iff, List.map_eq_nil_iff, Nat.digits_eq_nil_iff_eq_zero]
  exact h.ne'

/-- A key that some file holds. -/
def OpenSsl.Reads (openssl : OpenSsl) (key : RSAPublicKey) : Prop :=
  ∃ format bytes, openssl.pemRead format bytes = some key

/-- **A key from a file is read back.** -/
theorem readKey_append (hopenssl : openssl.Documented) {key : DcId × RSAPublicKey}
    (h : openssl.Reads key.2) (rest : Bytes) :
    readKey openssl ⟨keyBytes key ++ rest, true⟩ = some (key, ⟨rest, true⟩) := by
  obtain ⟨format, bytes, hread⟩ := h
  obtain ⟨hn, he⟩ := hopenssl.pemRead_positive _ _ _ hread
  obtain ⟨hnsize, hesize⟩ := hopenssl.pemRead_size _ _ _ hread
  have hnumbers : openssl.fromNumbers (toBytes key.2.n) (toBytes key.2.e) = some key.2 := by
    rw [OpenSsl.fromNumbers, hopenssl.bigNum _ (toBytes_ne_nil hn),
      hopenssl.bigNum _ (toBytes_ne_nil he), ofBigEndian_toBytes, ofBigEndian_toBytes]
  rw [readKey, keyBytes, List.append_assoc, List.append_assoc,
    bind_of_some (reads_of_eq (readInt32_append _)),
    bind_of_some (reads_of_eq (readVector_append hnsize _)),
    bind_of_some (reads_of_eq (readVector_append hesize _)), bind_of_some rfl, hnumbers,
    bind_of_some rfl]
  rfl

/-! ### Collected by data centre and fingerprint -/

/-- The key of a data centre with a fingerprint. -/
def CdnKeys.keyAt (keys : CdnKeys) (dcId : DcId) (fingerprint : Fin (2 ^ 64)) :
    Option RSAPublicKey :=
  (keys.find? dcId).bind fun inner => inner.find? fingerprint

/-- Every data centre has a key, and every key comes from a file and is kept under its fingerprint. -/
structure OpenSsl.Keeps (openssl : OpenSsl) (keys : CdnKeys) : Prop where
  nonempty : ∀ dcId inner, keys.find? dcId = some inner → ∃ fingerprint key,
    inner.find? fingerprint = some key
  reads : ∀ dcId fingerprint key, keys.keyAt dcId fingerprint = some key → openssl.Reads key
  own : ∀ dcId fingerprint key, keys.keyAt dcId fingerprint = some key →
    openssl.fingerprint key = fingerprint

variable {keys keys' : CdnKeys} {dcId : DcId} {key : RSAPublicKey} {fingerprint : Fin (2 ^ 64)}

/-- **What adding a key does to the others.** -/
theorem keyAt_addCdnKey (dcId' : DcId) (fingerprint : Fin (2 ^ 64)) :
    (addCdnKey openssl keys dcId key).keyAt dcId' fingerprint
      = if dcId' = dcId ∧ fingerprint = openssl.fingerprint key then
          some ((keys.keyAt dcId fingerprint).getD key)
        else keys.keyAt dcId' fingerprint := by
  rw [CdnKeys.keyAt, addCdnKey, FlatMap.find?_assign, CdnKeys.keyAt, CdnKeys.keyAt]
  by_cases hdc : dcId' = dcId
  · subst hdc
    rw [if_pos rfl, Option.bind_some, FlatMap.find?_emplace]
    cases keys.find? dcId' with
    | none =>
      rw [Option.getD_none, Option.bind_none, FlatMap.find?_empty, FlatMap.find?_empty]
      exact if_congr (and_iff_right rfl).symm rfl rfl
    | some inner =>
      rw [Option.getD_some, Option.bind_some]
      by_cases hfingerprint : fingerprint = openssl.fingerprint key
      · rw [if_pos hfingerprint, if_pos ⟨rfl, hfingerprint⟩, hfingerprint]
      · rw [if_neg hfingerprint, if_neg fun h => hfingerprint h.2]
  · rw [if_neg hdc, if_neg fun h => hdc h.1]

theorem exists_find?_addCdnKey
    (h : ∀ dcId inner, keys.find? dcId = some inner → ∃ fingerprint key,
      inner.find? fingerprint = some key) :
    ∀ dcId' inner, (addCdnKey openssl keys dcId key).find? dcId' = some inner →
      ∃ fingerprint key, inner.find? fingerprint = some key := by
  intro dcId' inner hfind
  rw [addCdnKey, FlatMap.find?_assign] at hfind
  split_ifs at hfind with hdc
  · obtain rfl := Option.some.inj hfind
    exact ⟨openssl.fingerprint key, _, (FlatMap.find?_emplace _ _ _ _).trans (if_pos rfl)⟩
  · exact h dcId' inner hfind

/-- **Adding a key from a file keeps the keys.** -/
theorem OpenSsl.Keeps.addCdnKey (h : openssl.Keeps keys) (hkey : openssl.Reads key) :
    openssl.Keeps (addCdnKey openssl keys dcId key) where
  nonempty := exists_find?_addCdnKey h.nonempty
  reads dcId' fingerprint key' hkey' := by
    rw [keyAt_addCdnKey] at hkey'
    split_ifs at hkey' with hnew
    · obtain rfl := Option.some.inj hkey'
      cases hold : keys.keyAt dcId fingerprint with
      | none => exact hkey
      | some old => exact h.reads _ _ _ hold
    · exact h.reads _ _ _ hkey'
  own dcId' fingerprint key' hkey' := by
    rw [keyAt_addCdnKey] at hkey'
    split_ifs at hkey' with hnew
    · obtain rfl := Option.some.inj hkey'
      cases hold : keys.keyAt dcId fingerprint with
      | none => exact hnew.2.symm
      | some old => exact h.own _ _ _ hold
    · exact h.own _ _ _ hkey'

theorem OpenSsl.keeps_empty : openssl.Keeps FlatMap.empty where
  nonempty _ _ h := nomatch h
  reads _ _ _ h := nomatch h
  own _ _ _ h := nomatch h

/-- Maps whose data centres all have keys are equal when they have the same keys. -/
theorem cdnKeys_ext
    (h : ∀ dcId inner, keys.find? dcId = some inner → ∃ fingerprint key,
      inner.find? fingerprint = some key)
    (h' : ∀ dcId inner, keys'.find? dcId = some inner → ∃ fingerprint key,
      inner.find? fingerprint = some key)
    (heq : ∀ dcId fingerprint, keys.keyAt dcId fingerprint = keys'.keyAt dcId fingerprint) :
    keys = keys' := by
  refine FlatMap.ext_find? fun dcId => ?_
  have hat := heq dcId
  simp only [CdnKeys.keyAt] at hat
  cases hfind : keys.find? dcId with
  | none =>
    cases hfind' : keys'.find? dcId with
    | none => rfl
    | some inner' =>
      obtain ⟨fingerprint, key, hkey⟩ := h' dcId inner' hfind'
      have hnone := hat fingerprint
      rw [hfind, hfind', Option.bind_none, Option.bind_some, hkey] at hnone
      exact nomatch hnone
  | some inner =>
    cases hfind' : keys'.find? dcId with
    | none =>
      obtain ⟨fingerprint, key, hkey⟩ := h dcId inner hfind
      have hnone := hat fingerprint
      rw [hfind, hfind', Option.bind_none, Option.bind_some, hkey] at hnone
      exact nomatch hnone
    | some inner' =>
      rw [hfind, hfind'] at hat
      exact congrArg some (FlatMap.ext_find? hat)

/-- The loop that adds keys. -/
def addCdnKeys (openssl : OpenSsl) (keys : CdnKeys) (list : List (DcId × RSAPublicKey)) : CdnKeys :=
  list.foldl (fun keys key => addCdnKey openssl keys key.1 key.2) keys

theorem OpenSsl.Keeps.addCdnKeys (h : openssl.Keeps keys) {list : List (DcId × RSAPublicKey)}
    (hlist : ∀ key ∈ list, openssl.Reads key.2) : openssl.Keeps (addCdnKeys openssl keys list) := by
  induction list generalizing keys with
  | nil => exact h
  | cons added list ih =>
    obtain ⟨hadded, hlist⟩ := List.forall_mem_cons.mp hlist
    exact ih (h.addCdnKey hadded) hlist

/-- A kept key is one of those added. -/
theorem mem_of_keyAt_addCdnKeys {list : List (DcId × RSAPublicKey)}
    (hkept : (addCdnKeys openssl keys list).keyAt dcId fingerprint = some key) :
    keys.keyAt dcId fingerprint = some key ∨ (dcId, key) ∈ list := by
  induction list generalizing keys with
  | nil => exact .inl hkept
  | cons added list ih =>
    rcases ih hkept with h | h
    · rw [keyAt_addCdnKey] at h
      split_ifs at h with hnew
      · obtain ⟨rfl, rfl⟩ := hnew
        cases hold : keys.keyAt added.1 (openssl.fingerprint added.2) with
        | none =>
          rw [hold, Option.getD_none] at h
          rw [← Option.some.inj h]
          exact .inr List.mem_cons_self
        | some old =>
          rw [hold, Option.getD_some] at h
          exact .inl h
      · exact .inl h
    · exact .inr (List.mem_cons_of_mem _ h)

/-- A key stays when others are added. -/
theorem keyAt_addCdnKeys_of_some {list : List (DcId × RSAPublicKey)}
    (h : keys.keyAt dcId fingerprint = some key) :
    (addCdnKeys openssl keys list).keyAt dcId fingerprint = some key := by
  induction list generalizing keys with
  | nil => exact h
  | cons added list ih =>
    refine ih ?_
    rw [keyAt_addCdnKey]
    split_ifs with hnew
    · rw [← hnew.1, h, Option.getD_some]
    · exact h

/-- **Added keys that none of the others has the data centre and fingerprint of are kept.** -/
theorem keyAt_addCdnKeys_of_mem {list : List (DcId × RSAPublicKey)}
    (hnodup : (list.map fun key => (key.1, openssl.fingerprint key.2)).Nodup)
    (hnew : ∀ key ∈ list, keys.keyAt key.1 (openssl.fingerprint key.2) = none)
    (h : (dcId, key) ∈ list) :
    (addCdnKeys openssl keys list).keyAt dcId (openssl.fingerprint key) = some key := by
  induction list generalizing keys with
  | nil => exact absurd h List.not_mem_nil
  | cons added list ih =>
    rw [List.map_cons, List.nodup_cons] at hnodup
    obtain ⟨hadded, hnew⟩ := List.forall_mem_cons.mp hnew
    rcases List.mem_cons.mp h with rfl | h
    · have hfirst : (addCdnKey openssl keys dcId key).keyAt dcId (openssl.fingerprint key)
          = some key := by
        rw [keyAt_addCdnKey, if_pos ⟨rfl, rfl⟩, hadded, Option.getD_none]
      show (addCdnKeys openssl (addCdnKey openssl keys dcId key) list).keyAt dcId _ = _
      exact keyAt_addCdnKeys_of_some hfirst
    · refine ih hnodup.2 (fun key hkey => ?_) h
      rw [keyAt_addCdnKey, if_neg, hnew key hkey]
      rintro ⟨hdc, hfingerprint⟩
      refine hnodup.1 (List.mem_map.mpr ⟨key, hkey, Prod.ext hdc hfingerprint⟩)

/-! ### What is written of them -/

theorem mem_storedKeys : (dcId, key) ∈ storedKeys keys ↔
    ∃ fingerprint, keys.keyAt dcId fingerprint = some key := by
  rw [storedKeys, List.mem_flatMap]
  constructor
  · rintro ⟨⟨dcId', inner⟩, hinner, h⟩
    obtain ⟨⟨fingerprint, key'⟩, hentry, h⟩ := List.mem_map.mp h
    obtain ⟨rfl, rfl⟩ := Prod.mk.inj h
    refine ⟨fingerprint, ?_⟩
    rw [CdnKeys.keyAt, FlatMap.find?_eq_some.mpr hinner]
    exact FlatMap.find?_eq_some.mpr hentry
  · rintro ⟨fingerprint, h⟩
    obtain ⟨inner, hinner, h⟩ := Option.bind_eq_some_iff.mp h
    exact ⟨(dcId, inner), FlatMap.find?_eq_some.mp hinner,
      List.mem_map.mpr ⟨(fingerprint, key), FlatMap.find?_eq_some.mp h, rfl⟩⟩

theorem nodup_storedKeys (h : openssl.Keeps keys) :
    ((storedKeys keys).map fun key => (key.1, openssl.fingerprint key.2)).Nodup := by
  have hpairs : (storedKeys keys).map (fun key => (key.1, openssl.fingerprint key.2))
      = keys.entries.flatMap fun item => item.2.entries.map fun entry => (item.1, entry.1) := by
    rw [storedKeys, List.map_flatMap]
    refine List.flatMap_congr fun item hitem => ?_
    rw [List.map_map]
    refine List.map_congr_left fun entry hentry => ?_
    refine congrArg (Prod.mk item.1) (h.own item.1 entry.1 entry.2 ?_)
    rw [CdnKeys.keyAt, FlatMap.find?_eq_some.mpr hitem]
    exact FlatMap.find?_eq_some.mpr hentry
  rw [hpairs, List.nodup_flatMap]
  refine ⟨fun item _ => ?_, ?_⟩
  · have hmap : item.2.entries.map (fun entry => (item.1, entry.1))
        = item.2.keys.map (Prod.mk item.1) := by rw [FlatMap.keys, List.map_map]; rfl
    rw [hmap]
    exact item.2.nodup_keys.map fun _ _ h => (Prod.mk.inj h).2
  · refine keys.sorted.imp fun {i j} hij p hi hj => ?_
    obtain ⟨e, -, rfl⟩ := List.mem_map.mp hi
    obtain ⟨e', -, h'⟩ := List.mem_map.mp hj
    exact absurd (Prod.mk.inj h').1 hij.ne'

theorem OpenSsl.Keeps.reads_storedKeys (h : openssl.Keeps keys) :
    ∀ key ∈ storedKeys keys, openssl.Reads key.2 := by
  rintro ⟨dcId, key⟩ hkey
  obtain ⟨fingerprint, hkey⟩ := mem_storedKeys.mp hkey
  exact h.reads dcId fingerprint key hkey

/-- **The written keys make the map they were taken from.** -/
theorem addCdnKeys_storedKeys (h : openssl.Keeps keys) :
    addCdnKeys openssl FlatMap.empty (storedKeys keys) = keys := by
  have hrestored : openssl.Keeps (addCdnKeys openssl FlatMap.empty (storedKeys keys)) :=
    OpenSsl.keeps_empty.addCdnKeys h.reads_storedKeys
  refine cdnKeys_ext hrestored.nonempty h.nonempty fun dcId fingerprint => Option.ext fun key => ?_
  constructor
  · intro hkey
    have hmem := (mem_of_keyAt_addCdnKeys hkey).resolve_left fun h => nomatch h
    obtain ⟨fingerprint', hkey'⟩ := mem_storedKeys.mp hmem
    rwa [← hrestored.own _ _ _ hkey, h.own _ _ _ hkey']
  · intro hkey
    have hmem := mem_storedKeys.mpr ⟨fingerprint, hkey⟩
    have hkept : (addCdnKeys openssl FlatMap.empty (storedKeys keys)).keyAt dcId
        (openssl.fingerprint key) = some key :=
      keyAt_addCdnKeys_of_mem (nodup_storedKeys h) (fun _ _ => rfl) hmem
    rwa [h.own _ _ _ hkey] at hkept

end

/-! ## Reading a state back -/

section

variable {openssl : OpenSsl} {s : DcOptions RSAPublicKey}

/-- What the reader and the counters of the writer need: sizes that are read, and counts that are
`int`s. -/
structure Storable (s : DcOptions RSAPublicKey) : Prop where
  readable : ∀ id, isTemporaryDcId id = false → ∀ e ∈ s.data.endpoints id, e.Readable
  endpointCount : (storedEndpoints s.data).length < 2 ^ 31
  keyCount : (storedKeys s.cdnPublicKeys).length < 2 ^ 31

/-- What is stored of a state makes a new instance with its endpoints, but for temporary data
centres, and with its CDN keys. -/
def RoundTrips (openssl : OpenSsl) (s : DcOptions RSAPublicKey) : Prop :=
  ∃ serialized restored, s.serialize = some serialized ∧
    (DcOptions.construct s.environment).constructFromSerialized openssl serialized
      = (restored, true) ∧
    (∀ id, isTemporaryDcId id = false → restored.data.endpoints id = s.data.endpoints id) ∧
    restored.cdnPublicKeys = s.cdnPublicKeys

/-- A count as the loops take it. -/
theorem toBits_wrap_length {n : ℕ} (h : n < 2 ^ 31) : (Qint32.wrap n).toBits = n := by
  rw [Qint32.toBits_wrap]
  omega

/-- The written endpoints are those of the data centres that are not temporary. -/
theorem mem_storedEndpoints {data : DcTable} (h : WellFormed data) {e : Endpoint} :
    e ∈ storedEndpoints data ↔ isTemporaryDcId e.id = false ∧ e ∈ data.endpoints e.id := by
  have hmem : e ∈ storedEndpoints data ↔ e ∈ (storedEndpoints data).filter (·.id = e.id) := by
    rw [List.mem_filter, and_iff_left (decide_eq_true rfl)]
  rw [hmem, filter_storedEndpoints h]
  cases isTemporaryDcId e.id with
  | true => exact iff_of_false List.not_mem_nil fun h => nomatch h.1
  | false => exact (and_iff_right rfl).symm

variable {version count : Qint32} {stream stream' : DataStream}

/-- `constructFromStream` when the endpoints can be read… -/
theorem constructFromStream_of_some (openssl : OpenSsl) (s : DcOptions RSAPublicKey)
    (h : (readEndpoints version count FlatMap.empty stream).2 = some stream') :
    (s.constructFromStream openssl version count stream).1.data
        = (readEndpoints version count FlatMap.empty stream).1 ∧
      (s.constructFromStream openssl version count stream).1.cdnPublicKeys
        = (readCdnConfig openssl version s.cdnPublicKeys stream').1 ∧
      (s.constructFromStream openssl version count stream).2
        = (readCdnConfig openssl version s.cdnPublicKeys stream').2 := by
  simp only [DcOptions.constructFromStream, h, and_self]

/-- …and when they cannot. -/
theorem constructFromStream_of_none (openssl : OpenSsl) (s : DcOptions RSAPublicKey)
    (h : (readEndpoints version count FlatMap.empty stream).2 = none) :
    (s.constructFromStream openssl version count stream).2 = false := by
  simp only [DcOptions.constructFromStream, h]

theorem versionOf_kVersion : versionOf (Qint32.wrap (-kVersion.1)) = kVersion := by
  have hminus : Qint32.wrap (-kVersion.1) = ⟨-2, by decide⟩ := Qint32.wrap_eq (by decide)
  rw [hminus, versionOf, if_pos (by decide)]
  exact Qint32.wrap_eq (by decide)

/-- The version and the count are read back. -/
theorem constructFromSerialized_append (count : Qint32) (body : Bytes) :
    s.constructFromSerialized openssl
        (int32Bytes (Qint32.wrap (-kVersion.1)) ++ (int32Bytes count ++ body))
      = s.constructFromStream openssl kVersion count ⟨body, true⟩ := by
  have hcount : readCount (Qint32.wrap (-kVersion.1)) ⟨int32Bytes count ++ body, true⟩
      = (count, ⟨body, true⟩) := by
    rw [readCount, versionOf_kVersion, if_pos (by decide), readInt32_append]
  rw [DcOptions.constructFromSerialized, readInt32_append]
  dsimp only
  rw [hcount, versionOf_kVersion]
  exact if_neg (by simp)

/-- The written endpoints are read and added. -/
theorem readEndpoints_append {data : DcTable} (h : ∀ e ∈ storedEndpoints data, e.Readable)
    (hcount : (storedEndpoints data).length < 2 ^ 31) (rest : Bytes) :
    readEndpoints kVersion (Qint32.wrap (storedEndpoints data).length) FlatMap.empty
        ⟨(storedEndpoints data).flatMap endpointBytes ++ rest, true⟩
      = ((storedEndpoints data).foldl addEndpoint FlatMap.empty, some ⟨rest, true⟩) := by
  rw [readEndpoints, toBits_wrap_length hcount]
  exact readMany_append (fun e he => readEndpoint_append (h e he)) _ _

theorem readKeys_append (hopenssl : openssl.Documented) {keys : CdnKeys} (h : openssl.Keeps keys)
    (hcount : (storedKeys keys).length < 2 ^ 31) :
    readKeys openssl (Qint32.wrap (storedKeys keys).length) FlatMap.empty
        ⟨(storedKeys keys).flatMap keyBytes, true⟩ = (keys, some ⟨[], true⟩) := by
  have hmany : readMany (readKey openssl) (fun keys key => addCdnKey openssl keys key.1 key.2)
      (storedKeys keys).length FlatMap.empty ⟨(storedKeys keys).flatMap keyBytes ++ [], true⟩
        = (addCdnKeys openssl FlatMap.empty (storedKeys keys), some ⟨[], true⟩) :=
    readMany_append (fun key hkey => readKey_append hopenssl (h.reads_storedKeys key hkey)) _ _
  rw [List.append_nil] at hmany
  rw [readKeys, toBits_wrap_length hcount, hmany, addCdnKeys_storedKeys h]

/-- The CDN part when there is one. -/
theorem readCdnConfig_of_readInt32 {keys : CdnKeys} (hrest : stream.rest ≠ [])
    (hread : stream.readInt32 = (count, stream')) (hok : stream'.ok = true) :
    readCdnConfig openssl kVersion keys stream = atEnd (readKeys openssl count keys stream') := by
  rw [readCdnConfig, if_pos ⟨hrest, by decide⟩, hread]
  exact if_neg (by rw [hok]; exact Bool.false_ne_true.symm)

theorem readCdnConfig_count (n : Qint32) (rest : Bytes) :
    readCdnConfig openssl kVersion FlatMap.empty ⟨int32Bytes n ++ rest, true⟩
      = atEnd (readKeys openssl n FlatMap.empty ⟨rest, true⟩) :=
  readCdnConfig_of_readInt32 (int32Bytes_append_ne_nil _ _) (readInt32_append _) rfl

/-- …as are the written keys. -/
theorem readCdnConfig_append (hopenssl : openssl.Documented) {keys : CdnKeys}
    (h : openssl.Keeps keys) (hcount : (storedKeys keys).length < 2 ^ 31) :
    readCdnConfig openssl kVersion FlatMap.empty
        ⟨int32Bytes (Qint32.wrap (storedKeys keys).length) ++ (storedKeys keys).flatMap keyBytes,
          true⟩ = (keys, true) := by
  refine (readCdnConfig_count _ _).trans ?_
  rw [readKeys_append hopenssl h hcount]
  rfl

/-- **What is written of a storable state is read, and makes its tables.** -/
theorem constructFromSerialized_serializeData (hopenssl : openssl.Documented)
    {data : DcTable} {keys : CdnKeys} (hdata : ∀ e ∈ storedEndpoints data, e.Readable)
    (hkeys : openssl.Keeps keys) (hcount : (storedEndpoints data).length < 2 ^ 31)
    (hkeyCount : (storedKeys keys).length < 2 ^ 31) (target : DcOptions RSAPublicKey)
    (htarget : target.cdnPublicKeys = FlatMap.empty) :
    ∃ serialized restored, serializeData data keys = some serialized ∧
      target.constructFromSerialized openssl serialized = (restored, true) ∧
      restored.data = (storedEndpoints data).foldl addEndpoint FlatMap.empty ∧
      restored.cdnPublicKeys = keys := by
  have hkeyCount' : (Qint32.wrap (storedKeys keys).length).1 = (storedKeys keys).length :=
    wrap_length hkeyCount
  have hendpoints := readEndpoints_append hdata hcount
    (int32Bytes (Qint32.wrap (storedKeys keys).length) ++ (storedKeys keys).flatMap keyBytes)
  have hend : (readEndpoints kVersion (Qint32.wrap (storedEndpoints data).length) FlatMap.empty
      ⟨(storedEndpoints data).flatMap endpointBytes ++ (int32Bytes
        (Qint32.wrap (storedKeys keys).length) ++ (storedKeys keys).flatMap keyBytes), true⟩).2
      = some _ := congrArg Prod.snd hendpoints
  obtain ⟨htable, hkeysRead, hread⟩ := constructFromStream_of_some openssl target hend
  rw [hendpoints] at htable
  rw [htarget, readCdnConfig_append hopenssl hkeys hkeyCount] at hkeysRead hread
  generalize hstream : target.constructFromStream openssl kVersion
    (Qint32.wrap (storedEndpoints data).length)
    ⟨(storedEndpoints data).flatMap endpointBytes ++ (int32Bytes
      (Qint32.wrap (storedKeys keys).length) ++ (storedKeys keys).flatMap keyBytes), true⟩ = result
    at htable hkeysRead hread
  obtain ⟨restored, success⟩ := result
  refine ⟨int32Bytes (Qint32.wrap (-kVersion.1))
    ++ (int32Bytes (Qint32.wrap (storedEndpoints data).length)
    ++ ((storedEndpoints data).flatMap endpointBytes
    ++ (int32Bytes (Qint32.wrap (storedKeys keys).length) ++ (storedKeys keys).flatMap keyBytes))),
    restored, ?_, ?_, htable, hkeysRead⟩
  · rw [serializeData, if_neg (by omega), if_neg (by omega)]
    simp only [List.append_assoc]
  · rw [constructFromSerialized_append, hstream]
    exact congrArg (Prod.mk restored) hread

theorem of_readKeys (count : Qint32) (keys : CdnKeys) (stream : DataStream) :
    ∃ list : List (DcId × RSAPublicKey), list.length < 2 ^ 32 ∧
      (readKeys openssl count keys stream).1 = addCdnKeys openssl keys list := by
  obtain ⟨list, hlength, hlist, -⟩ : ∃ list : List (DcId × RSAPublicKey),
      list.length ≤ count.toBits ∧
      (readMany (readKey openssl) (fun keys key => addCdnKey openssl keys key.1 key.2)
        count.toBits keys stream).1 = addCdnKeys openssl keys list ∧ _ :=
    readMany_eq_foldl count.toBits keys stream
  exact ⟨list, hlength.trans_lt count.toBits_lt, by rw [readKeys, hlist]⟩

theorem of_readCdnConfig (version : Qint32) (keys : CdnKeys) (stream : DataStream) :
    ∃ list : List (DcId × RSAPublicKey), list.length < 2 ^ 32 ∧
      (readCdnConfig openssl version keys stream).1 = addCdnKeys openssl keys list := by
  rw [readCdnConfig]
  split_ifs
  · exact ⟨[], by norm_num, rfl⟩
  · obtain ⟨list, hlength, hlist⟩ := of_readKeys stream.readInt32.1 keys stream.readInt32.2
    exact ⟨list, hlength, by rw [atEnd_fst, hlist]⟩
  · exact ⟨[], by norm_num, rfl⟩

/-- **What is read of a stream: some endpoints with accepted sizes, and fewer than `2 ^ 32` keys.** -/
theorem of_constructFromSerialized {serialized : Bytes} {restored : DcOptions RSAPublicKey}
    (h : s.constructFromSerialized openssl serialized = (restored, true)) :
    (∃ list : List Endpoint, (∀ e ∈ list, e.Readable) ∧
      restored.data = list.foldl addEndpoint FlatMap.empty) ∧
    ∃ list : List (DcId × RSAPublicKey), list.length < 2 ^ 32 ∧
      restored.cdnPublicKeys = addCdnKeys openssl s.cdnPublicKeys list := by
  obtain ⟨version, count, stream, hstream⟩ : ∃ version count stream,
      s.constructFromStream openssl version count stream = (restored, true) := by
    rw [DcOptions.constructFromSerialized] at h
    split_ifs at h
    · exact nomatch h
    · exact ⟨_, _, _, h⟩
  cases hendpoints : (readEndpoints version count FlatMap.empty stream).2 with
  | none =>
    have hfalse := constructFromStream_of_none openssl s hendpoints
    rw [hstream] at hfalse
    exact nomatch hfalse
  | some stream' =>
    obtain ⟨hdata, hkeys, -⟩ := constructFromStream_of_some openssl s hendpoints
    rw [hstream] at hdata hkeys
    refine ⟨?_, ?_⟩
    · obtain ⟨list, -, hlist, hread⟩ : ∃ list : List Endpoint, list.length ≤ count.toBits ∧
          (readEndpoints version count FlatMap.empty stream).1
            = list.foldl addEndpoint FlatMap.empty ∧
          ∀ e ∈ list, ∃ s s', readEndpoint version s = some (e, s') :=
        readMany_eq_foldl count.toBits FlatMap.empty stream
      refine ⟨list, fun e he => ?_, hdata.trans hlist⟩
      obtain ⟨s, s', h⟩ := hread e he
      exact readable_of_readEndpoint h
    · obtain ⟨list, hlength, hlist⟩ := of_readCdnConfig version s.cdnPublicKeys stream'
      exact ⟨list, hlength, hkeys.trans hlist⟩

/-- **A state that survives was storable.** -/
theorem RoundTrips.storable (hm : s.immutable = false) (hkeys : openssl.Keeps s.cdnPublicKeys)
    (h : RoundTrips openssl s) : Storable s := by
  obtain ⟨serialized, restored, hserialize, hconstruct, hdata, hrestored⟩ := h
  obtain ⟨⟨list, hreadable, hlist⟩, keyList, hlength, hkeyList⟩ :=
    of_constructFromSerialized hconstruct
  rw [DcOptions.serialize, hm, if_neg Bool.false_ne_true, serializeData] at hserialize
  split_ifs at hserialize with hcount hkeyCount
  refine ⟨fun id hid e he => ?_, not_le.mp hcount, ?_⟩
  · rw [← hdata id hid, hlist] at he
    exact hreadable e ((mem_of_mem_foldl_addEndpoint he).resolve_left List.not_mem_nil)
  · by_contra hlarge
    have hsubset : storedKeys s.cdnPublicKeys ⊆ keyList := by
      rintro ⟨dcId, key⟩ hkey
      obtain ⟨fingerprint, hkey⟩ := mem_storedKeys.mp hkey
      rw [← hrestored, hkeyList] at hkey
      exact (mem_of_keyAt_addCdnKeys hkey).resolve_left fun h => nomatch h
    have hnodup : (storedKeys s.cdnPublicKeys).Nodup := (nodup_storedKeys hkeys).of_map _
    have hle := (List.subperm_of_subset hnodup hsubset).length_le
    exact hkeyCount (Qint32.wrap_neg ⟨by exact_mod_cast not_lt.mp hlarge,
      by exact_mod_cast hle.trans_lt hlength⟩)

/-- **A storable state survives.** -/
theorem Storable.roundTrips (hopenssl : openssl.Documented) (hm : s.immutable = false)
    (hkeys : openssl.Keeps s.cdnPublicKeys) (h : Storable s) : RoundTrips openssl s := by
  have hreadable : ∀ e ∈ storedEndpoints s.data, e.Readable := fun e he => by
    obtain ⟨hid, he⟩ := (mem_storedEndpoints s.wellFormed).mp he
    exact h.readable e.id hid e he
  obtain ⟨serialized, restored, hserialize, hconstruct, hdata, hrestored⟩ :=
    constructFromSerialized_serializeData hopenssl hreadable hkeys h.endpointCount h.keyCount
      (DcOptions.construct s.environment) rfl
  refine ⟨serialized, restored, ?_, hconstruct, fun id hid => ?_, hrestored⟩
  · rw [DcOptions.serialize, hm, if_neg Bool.false_ne_true, hserialize]
  · rw [hdata, endpoints_foldl_storedEndpoints s.wellFormed, hid, if_neg Bool.false_ne_true]

/-! ## The states of a run -/

/-- What every state of a mutable instance satisfies: its keys come from files. -/
structure Kept (openssl : OpenSsl) (s : DcOptions RSAPublicKey) : Prop where
  mutable : s.immutable = false
  keys : openssl.Keeps s.cdnPublicKeys

/-- Lists of options change the table only. -/
theorem processFromList_frame {s' : DcOptions RSAPublicKey} {options : List MTPDcOption}
    {overwrite : Bool} {changed : List DcId}
    (h : s.processFromList options overwrite = .ok (s', changed)) :
    s'.immutable = s.immutable ∧ s'.cdnPublicKeys = s.cdnPublicKeys := by
  rw [DcOptions.processFromList] at h
  split_ifs at h
  · obtain ⟨rfl, -⟩ := Prod.mk.inj (Except.ok.inj h)
    exact ⟨rfl, rfl⟩
  · obtain ⟨difference, -, h⟩ := bind_ok h
    split_ifs at h
    · obtain ⟨ids, -, h⟩ := bind_ok h
      obtain ⟨rfl, -⟩ := Prod.mk.inj (Except.ok.inj h)
      exact ⟨rfl, rfl⟩
    · obtain ⟨ids, -, h⟩ := bind_ok h
      obtain ⟨rfl, -⟩ := Prod.mk.inj (Except.ok.inj h)
      exact ⟨rfl, rfl⟩

/-- The keys of a CDN configuration come from files. -/
theorem keeps_applyCdnKeys {keys keys' : CdnKeys} {config : List MTPDcdnPublicKey}
    (hkeys : openssl.Keeps keys) (h : applyCdnKeys openssl keys config = .ok keys') :
    openssl.Keeps keys' := by
  induction config generalizing keys with
  | nil =>
    obtain rfl := Except.ok.inj h
    exact hkeys
  | cons data config ih =>
    rw [applyCdnKeys] at h
    obtain ⟨read, hread, h⟩ := bind_ok h
    cases read with
    | none => exact ih hkeys h
    | some key =>
      refine ih (hkeys.addCdnKey ?_) h
      rw [OpenSsl.fromPem] at hread
      cases hformat : guessFormat data.publicKey with
      | none =>
        rw [hformat] at hread
        exact nomatch hread
      | some format =>
        rw [hformat] at hread
        exact ⟨format, data.publicKey, Except.ok.inj hread⟩

/-- **Every update keeps that.** -/
theorem Kept.update {s' : DcOptions RSAPublicKey} {update : OptionsUpdate} {changed : List DcId}
    (hkept : Kept openssl s) (h : s.update openssl update = .ok (s', changed)) :
    Kept openssl s' := by
  cases update with
  | setFromList options | addFromList options =>
    obtain ⟨hm, hkeys⟩ := processFromList_frame h
    exact ⟨hm.trans hkept.mutable, hkeys ▸ hkept.keys⟩
  | setCDNConfig config =>
    rw [DcOptions.update] at h
    cases hset : s.setCDNConfig openssl config with
    | error e =>
      rw [hset] at h
      exact nomatch h
    | ok s'' =>
      rw [hset] at h
      obtain ⟨rfl, -⟩ := Prod.mk.inj (Except.ok.inj h)
      obtain ⟨keys, hkeys, hset⟩ := bind_ok hset
      obtain ⟨ids, -, hset⟩ := bind_ok hset
      obtain rfl := Except.ok.inj hset
      exact ⟨hkept.mutable, keeps_applyCdnKeys OpenSsl.keeps_empty hkeys⟩

theorem kept_of_run {environment : Environment} {updates : List OptionsUpdate}
    {changed : List DcId} (hrun : runChecked (DcOptions.update openssl)
      (DcOptions.construct environment) updates = .ok (s, changed)) : Kept openssl s :=
  runChecked_invariant (Kept openssl) ⟨rfl, OpenSsl.keeps_empty⟩
    (fun _ _ _ _ hs h => hs.update h) hrun

/-- **A state of an instance that is not immutable survives exactly when it is storable.** -/
theorem constructFromSerialized_serialize_iff (openssl : OpenSsl) (hopenssl : openssl.Documented)
    (environment : Environment) (updates : List OptionsUpdate) (s : DcOptions RSAPublicKey)
    (changed : List DcId)
    (hrun : runChecked (DcOptions.update openssl) (DcOptions.construct environment) updates
      = .ok (s, changed)) : RoundTrips openssl s ↔ Storable s := by
  have hkept := kept_of_run hrun
  exact ⟨RoundTrips.storable hkept.mutable hkept.keys,
    Storable.roundTrips hopenssl hkept.mutable hkept.keys⟩

end

/-! ## One update of the built-in options -/

/-- Libraries on which no file holds a key. -/
def withoutKeys : OpenSsl where
  pemRead _ _ := none
  bigNum bytes := if bytes = [] then none else some (ofBigEndian bytes)
  sha1 _ := List.replicate 20 0
  mtpBytes bytes := bytes

theorem documented_withoutKeys : withoutKeys.Documented where
  pemRead_positive _ _ _ h := nomatch h
  pemRead_size _ _ _ h := nomatch h
  bigNum _ h := if_neg h

/-- The built-in options set to one endpoint. -/
theorem run_secondDc {ip : Bytes} {secret : Option Bytes} {id : DcId} {result : List DcId}
    (h : countOptionsDifference (builtInTable .production).entries
      (applyOptions FlatMap.empty [secondDc ip secret]).entries = .ok (id :: result)) :
    ∃ s changed, runChecked (DcOptions.update withoutKeys) (DcOptions.construct .production)
        [.setFromList [secondDc ip secret]] = .ok (s, changed) ∧
      s.data = applyOptions FlatMap.empty [secondDc ip secret] ∧
      s.cdnPublicKeys = FlatMap.empty := by
  obtain ⟨s', hset, hdata⟩ := setFromList_of_difference (s := DcOptions.construct .production) rfl
    (List.cons_ne_nil _ _) h
  refine ⟨s', id :: result ++ [], ?_, hdata.trans (if_neg (List.cons_ne_nil _ _)),
    (processFromList_frame hset).2⟩
  rw [runChecked, DcOptions.update, hset]
  rfl

/-- An address and a secret of ordinary sizes survive. -/
theorem constructFromSerialized_serialize_secondDc :
    ∃ s changed, runChecked (DcOptions.update withoutKeys) (DcOptions.construct .production)
        [.setFromList [secondDc [49] (some (List.replicate 16 7))]] = .ok (s, changed) ∧
      RoundTrips withoutKeys s := by
  have hdifference : countOptionsDifference (builtInTable .production).entries
      (applyOptions FlatMap.empty [secondDc [49] (some (List.replicate 16 7))]).entries
        = .ok [⟨1, by decide⟩, ⟨2, by decide⟩, ⟨3, by decide⟩, ⟨4, by decide⟩, ⟨5, by decide⟩] := by
    decide +kernel
  obtain ⟨s, changed, hrun, hdata, hkeys⟩ := run_secondDc hdifference
  refine ⟨s, changed, hrun, (constructFromSerialized_serialize_iff withoutKeys
    documented_withoutKeys _ _ s changed hrun).mpr ⟨fun id _ e he => ?_, ?_, ?_⟩⟩
  · rw [hdata, mem_endpoints_applyOptions, listed_secondDc] at he
    rw [he.1]
    exact ⟨by decide, by decide, by decide⟩
  · rw [hdata]
    decide +kernel
  · rw [hkeys]
    decide

/-- A valid secret of 33 bytes does not. -/
theorem long_secret_not_restored :
    validateSecret (0xEE :: List.replicate 32 7) = true ∧ withoutKeys.Documented ∧
    ∃ s changed, runChecked (DcOptions.update withoutKeys) (DcOptions.construct .production)
        [.setFromList [secondDc [49] (some (0xEE :: List.replicate 32 7))]] = .ok (s, changed) ∧
      ¬ RoundTrips withoutKeys s := by
  have hdifference : countOptionsDifference (builtInTable .production).entries
      (applyOptions FlatMap.empty [secondDc [49] (some (0xEE :: List.replicate 32 7))]).entries
        = .ok [⟨1, by decide⟩, ⟨2, by decide⟩, ⟨3, by decide⟩, ⟨4, by decide⟩, ⟨5, by decide⟩] := by
    decide +kernel
  obtain ⟨s, changed, hrun, hdata, -⟩ := run_secondDc hdifference
  refine ⟨by decide, documented_withoutKeys, s, changed, hrun, fun h => ?_⟩
  have hkept : Kept withoutKeys s := kept_of_run hrun
  have hreadable := (RoundTrips.storable hkept.mutable hkept.keys h).readable ⟨2, by decide⟩
    (by decide +kernel) ⟨⟨2, by decide⟩, 0, [49], ⟨443, by decide⟩, 0xEE :: List.replicate 32 7⟩
    (by rw [hdata, mem_endpoints_applyOptions, listed_secondDc]; exact ⟨rfl, rfl⟩)
  exact absurd hreadable.2.2 (by decide)

end Yunogram.Mtproto
