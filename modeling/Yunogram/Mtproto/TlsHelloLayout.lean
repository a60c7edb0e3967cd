import Mathlib
import Yunogram.Mtproto.TlsHello

/-!
# Mtproto/TlsHelloLayout — the hello has the layout of its rules

`Lays` says what the bytes of a block are: the layout of a scope is a scope with what its entries
are inside, that of a permutation the layouts of its parts in some order.  A generator that reports
no error wrote what is laid out by the rules (`writeBlocks_lays`), and remembers the position of
zeros outside of all lengths, so that `client_hello` holds of what is left when the digest is there.
-/

open Machinery

namespace Yunogram

namespace Mtproto

namespace TlsHello

/-- The bytes of some parts of a hello. -/
abbrev bytesOf (ls : List Layout) : Bytes := Layout.bytesAll kLengthSize ls

mutual

/-- **What a block is**, when so much was written before. -/
inductive Lays (env : Env) : ℕ → TlsBlock → List Layout → Prop
  | string {start : ℕ} {data : Bytes} : Lays env start (.string data) [.raw data]
  | zero {start length : ℕ} : Lays env start (.zero length) [.raw (List.replicate length 0)]
  | grease {start seed : ℕ} {grease : UInt8} : env.greases[seed]? = some grease →
    Lays env start (.grease seed) [.raw [grease, grease]]
  | random {start : ℕ} {b : Bytes} : Lays env start (.random b.length) [.raw b]
  | domain {start : ℕ} : Lays env start .domain [.raw env.domain]
  | publicKey {start : ℕ} (n : ℕ) : Lays env start .publicKey [.raw (env.random.publicKey n)]
  | scope {start : ℕ} {entries : List TlsBlock} {inner : List Layout} :
    LaysAll env (start + kLengthSize) entries inner →
      Lays env start (.scope entries) [.scope inner]
  | permutation {start : ℕ} {entries : List (List TlsBlock)} {parts shuffled : List (List Layout)} :
    LaysParts env entries parts → shuffled.Perm parts →
      Lays env start (.permutation entries) shuffled.flatten
  | m {start : ℕ} {b : Bytes} : b.length = kElements * 3 + kAdded → Lays env start .m [.raw b]
  | e {start : ℕ} {b : Bytes} : (b.length : ℤ) ∈ Part.lengths → Lays env start .e [.raw b]
  | padded {start : ℕ} : start < 513 → Lays env start .padding
    [.raw [0x00, 0x15], .scope [.raw (List.replicate (513 - start) 0)]]
  | full {start : ℕ} : 513 ≤ start → Lays env start .padding []

/-- What some blocks are. -/
inductive LaysAll (env : Env) : ℕ → List TlsBlock → List Layout → Prop
  | nil {start : ℕ} : LaysAll env start [] []
  | cons {start : ℕ} {block : TlsBlock} {blocks : List TlsBlock} {l ls : List Layout} :
    Lays env start block l → LaysAll env (start + (bytesOf l).length) blocks ls →
      LaysAll env start (block :: blocks) (l ++ ls)

/-- What the parts of a permutation are, each on its own. -/
inductive LaysParts (env : Env) : List (List TlsBlock) → List (List Layout) → Prop
  | nil : LaysParts env [] []
  | cons {inner : List TlsBlock} {entries : List (List TlsBlock)} {l : List Layout}
    {parts : List (List Layout)} : LaysAll env 0 inner l → LaysParts env entries parts →
      LaysParts env (inner :: entries) (l :: parts)

end

/-! ## What is written -/

variable {env : Env} {p p' p'' : Part} {ls ls' : List Layout} {b : Bytes} {size : ℤ}

/-- The zeros the digest replaces. -/
def zeros : Bytes := List.replicate kHelloDigestLength 0

/-- **Some parts were written**, and a position that was remembered is that of zeros in them. -/
structure Writes (p p' : Part) (ls : List Layout) : Prop where
  error : p.error = false
  result : p'.result = p.result ++ bytesOf ls
  within : p.result.length ≤ kClientHelloLimit → p'.result.length ≤ kClientHelloLimit
  digest : p'.digestPosition = p.digestPosition ∨ ∃ q, p'.digestPosition = some q ∧
    (q, zeros) ∈ Layout.leavesAll kLengthSize p.result.length ls

theorem Writes.trans (h : Writes p p' ls) (h' : Writes p' p'' ls') :
    Writes p p'' (ls ++ ls') where
  error := h.error
  result := by rw [h'.result, h.result, List.append_assoc, ← Layout.bytesAll_append]
  within hp := h'.within (h.within hp)
  digest := by
    rw [Layout.leavesAll_append, ← List.length_append, ← h.result]
    rcases h'.digest with heq | ⟨q, hq, hmem⟩
    · rw [heq]
      exact h.digest.imp id fun ⟨q, hq, hmem⟩ => ⟨q, hq, List.mem_append_left _ hmem⟩
    · exact Or.inr ⟨q, hq, List.mem_append_right _ hmem⟩

/-- `grow` without an error. -/
theorem grow_ok (h : (p.grow size b).error = false) : p.error = false ∧ 0 < size ∧
    p.result.length + size ≤ kClientHelloLimit ∧
      p.grow size b = { p with result := p.result ++ b } := by
  rw [Part.grow] at h ⊢
  split_ifs at h ⊢ with hbad
  · simp only [not_or, not_le, not_lt, Bool.not_eq_true] at hbad
    exact ⟨hbad.1, hbad.2.1, hbad.2.2, rfl⟩

/-- Bytes are written. -/
theorem writes_grow (hb : bytesOf ls = b) (hsize : size = b.length)
    (h : (p.grow size b).error = false) (drawn : ℕ) :
    Writes p { p.grow size b with drawn } ls := by
  obtain ⟨herror, -, hlimit, heq⟩ := grow_ok h
  rw [heq]
  refine ⟨herror, by rw [hb], fun _ => ?_, Or.inl rfl⟩
  rw [List.length_append]
  omega

theorem bytesOf_raw (b : Bytes) : bytesOf [.raw b] = b := List.append_nil b

theorem writes_bytes (h : (p.writeBytes b).error = false) : Writes p (p.writeBytes b) [.raw b] :=
  writes_grow (bytesOf_raw b) rfl h (p.writeBytes b).drawn

/-- Zeros are written, and the first ones of the length of a digest remembered. -/
theorem writes_zero {length : ℤ} (h : (p.writeZero length).error = false) :
    0 < length ∧ Writes p (p.writeZero length) [.raw (List.replicate length.toNat 0)] := by
  set grown := p.grow length (List.replicate length.toNat 0) with hgrown
  have hzero : p.writeZero length = if grown.error then grown else
      if length = kHelloDigestLength ∧ grown.digestPosition = none then
        { grown with digestPosition := some p.result.length } else grown := rfl
  cases herror : grown.error with
  | true =>
    rw [hzero, if_pos herror, herror] at h
    exact nomatch h
  | false =>
    obtain ⟨-, hpos, -, -⟩ := grow_ok herror
    have hlength : length = (List.replicate length.toNat (0 : UInt8)).length := by
      rw [List.length_replicate]
      omega
    have hraw : Writes p grown [.raw (List.replicate length.toNat 0)] :=
      writes_grow (bytesOf_raw _) hlength herror grown.drawn
    refine ⟨hpos, ?_⟩
    rw [hzero, herror, if_neg Bool.false_ne_true]
    split_ifs with hdigest
    · refine ⟨hraw.error, hraw.result, hraw.within, Or.inr ⟨_, rfl, ?_⟩⟩
      rw [hdigest.1]
      exact List.mem_singleton.mpr rfl
    · exact hraw

theorem overwrite_between (front c c' back : Bytes) (hlength : c.length = c'.length) :
    overwrite (front ++ (c ++ back)) front.length c' = front ++ (c' ++ back) := by
  have h : overwrite (front ++ (c ++ back)) (front.length + 0) c' =
      front ++ overwrite (c ++ back) 0 c' := overwrite_append front (c ++ back) c'
  rw [Nat.add_zero] at h
  rw [h, overwrite, List.take_zero, List.nil_append, Nat.zero_add, ← hlength, List.drop_left]

/-- **A scope is written**, with what is inside. -/
theorem writes_scope {entries : Part → Part} {inside : List Layout → Prop}
    (h : (p.writeScope entries).error = false)
    (hentries : ∀ q : Part, q.result.length = p.result.length + kLengthSize →
      (entries q).error = false → ∃ inner, inside inner ∧ Writes q (entries q) inner) :
    ∃ inner, inside inner ∧ Writes p (p.writeScope entries) [.scope inner] := by
  set grown := p.grow kLengthSize (List.replicate kLengthSize 0) with hgrown
  have hscope : p.writeScope entries = if grown.error then grown else
      { entries grown with
        result := overwrite (entries grown).result p.result.length
          (bigEndian kLengthSize ((entries grown).result.length - grown.result.length)) } := rfl
  cases herror : grown.error with
  | true =>
    rw [hscope, if_pos herror, herror] at h
    exact nomatch h
  | false =>
    rw [hscope, herror, if_neg Bool.false_ne_true] at h
    rw [hscope, herror, if_neg Bool.false_ne_true]
    obtain ⟨hp, -, hlimit, heq⟩ := grow_ok herror
    have hresult : grown.result = p.result ++ List.replicate kLengthSize 0 := by rw [hgrown, heq]
    have hlength : grown.result.length = p.result.length + kLengthSize := by
      rw [hresult, List.length_append, List.length_replicate]
    have hdigest : grown.digestPosition = p.digestPosition := by rw [hgrown, heq]
    obtain ⟨inner, hinside, hwrites⟩ := hentries grown hlength h
    have hbytes : bytesOf [.scope inner] =
        bigEndian kLengthSize (bytesOf inner).length ++ bytesOf inner := List.append_nil _
    have hinner : (entries grown).result.length - grown.result.length = (bytesOf inner).length := by
      rw [hwrites.result, List.length_append, Nat.add_sub_cancel_left]
    have hall : overwrite (entries grown).result p.result.length
        (bigEndian kLengthSize (bytesOf inner).length) = p.result ++ bytesOf [.scope inner] := by
      rw [hwrites.result, hresult, List.append_assoc, hbytes,
        overwrite_between _ _ _ _ (by rw [List.length_replicate, length_bigEndian])]
    refine ⟨inner, hinside, hp, by rw [hinner, hall], fun _ => ?_, ?_⟩
    · have hwithin := hwrites.within (by rw [hlength]; omega)
      rw [hwrites.result, hresult, List.length_append, List.length_append,
        List.length_replicate] at hwithin
      rw [hinner, hall, hbytes, List.length_append, List.length_append, length_bigEndian]
      omega
    · rcases hwrites.digest with hsame | ⟨q, hq, hmem⟩
      · exact Or.inl (hsame.trans hdigest)
      · refine Or.inr ⟨q, hq, List.mem_append_left _ ?_⟩
        rwa [hlength] at hmem

/-- The padding is written. -/
theorem writes_padding (env : Env) (h : p.writePadding.error = false) :
    ∃ ls, Lays env p.result.length .padding ls ∧ Writes p p.writePadding ls := by
  by_cases hlt : p.result.length < 513
  · have hpadding : p.writePadding = (p.writeBytes [0x00, 0x15]).writeScope fun q =>
        q.writeZero (513 - p.result.length) := if_pos hlt
    rw [hpadding] at h ⊢
    have hzeros : ((513 : ℤ) - p.result.length).toNat = 513 - p.result.length := by omega
    obtain ⟨inner, rfl, hscope⟩ : ∃ inner,
        inner = [.raw (List.replicate (513 - p.result.length) 0)] ∧
          Writes (p.writeBytes [0x00, 0x15]) _ [.scope inner] :=
      writes_scope h fun q _ hq => ⟨_, rfl, hzeros ▸ (writes_zero hq).2⟩
    exact ⟨_, Lays.padded hlt, (writes_bytes hscope.error).trans hscope⟩
  · have hpadding : p.writePadding = p := if_neg hlt
    rw [hpadding] at h ⊢
    exact ⟨[], Lays.full (not_lt.mp hlt), h, (List.append_nil _).symm, id, Or.inl rfl⟩

/-- The parts of a permutation are copied. -/
theorem writes_parts {parts : List (List Layout)}
    (h : ((parts.map bytesOf).foldl Part.writeBytes p).error = false) :
    Writes p ((parts.map bytesOf).foldl Part.writeBytes p) parts.flatten := by
  induction parts generalizing p with
  | nil => exact ⟨h, (List.append_nil _).symm, id, Or.inl rfl⟩
  | cons l parts ih =>
    have hrest := ih h
    have hfirst : Writes p (p.writeBytes (bytesOf l)) l :=
      writes_grow rfl rfl hrest.error (p.writeBytes (bytesOf l)).drawn
    exact hfirst.trans hrest

/-- What is a reordering of images is the image of a reordering. -/
theorem exists_shuffled {α β : Type*} (f : α → β) {parts : List α} {list : List β}
    (h : list.Perm (parts.map f)) :
    ∃ shuffled, List.Perm shuffled parts ∧ list = shuffled.map f := by
  obtain ⟨shuffled, hall, hperm⟩ := List.perm_comp_forall₂ h
    (List.forall₂_map_left_iff.mpr (List.forall₂_same.mpr fun a _ => rfl) :
      List.Forall₂ (fun b a => b = f a) (parts.map f) parts)
  have heq : List.Forall₂ Eq list (shuffled.map f) := List.forall₂_map_right_iff.mpr hall
  rw [List.forall₂_eq_eq_eq] at heq
  exact ⟨shuffled, hperm, heq⟩

/-- Random bytes are written. -/
theorem writes_random {length : ℤ} (h : (p.writeRandom env length).error = false) :
    ∃ b : Bytes, (b.length : ℤ) = length ∧ Writes p (p.writeRandom env length) [.raw b] := by
  obtain ⟨-, hpos, -, -⟩ := grow_ok h
  have hlength : length = (env.random.bytes p.drawn length.toNat).length := by
    rw [env.random.length_bytes]
    omega
  exact ⟨_, hlength.symm, writes_grow (bytesOf_raw _) hlength h (p.drawn + 1)⟩

theorem length_flatMap_pair (a b : ℕ → ℕ) (n : ℕ) :
    ((List.range n).flatMap fun i => Part.pair (a i) (b i)).length = n * 3 := by
  induction n with
  | zero => rfl
  | succ n ih =>
    rw [List.range_succ, List.flatMap_append, List.length_append, ih, List.flatMap_singleton,
      Part.pair]
    simp only [List.length_cons, List.length_nil]
    omega

/-- Pairs are written. -/
theorem writes_m (h : (p.writeM env).error = false) :
    ∃ b : Bytes, b.length = kElements * 3 + kAdded ∧ Writes p (p.writeM env) [.raw b] := by
  refine ⟨_, ?_, writes_grow (bytesOf_raw _) ?_ h (p.drawn + 2)⟩
  · rw [List.length_append, length_flatMap_pair, env.random.length_bytes]
  · rw [List.length_append, length_flatMap_pair, env.random.length_bytes]

theorem getD_lengths_mem (i : ℕ) : Part.lengths.getD i 144 ∈ Part.lengths := by
  match i with
  | 0 => decide
  | 1 => decide
  | 2 => decide
  | 3 => decide
  | _ + 4 => exact List.mem_cons_self

mutual

/-- **A block is written as it lays.** -/
theorem writeBlock_lays (env : Env) : ∀ (block : TlsBlock) (p : Part),
    (writeBlock env block p).error = false →
      ∃ ls, Lays env p.result.length block ls ∧ Writes p (writeBlock env block p) ls
  | .string data, p, h => ⟨_, Lays.string, writes_bytes h⟩
  | .zero length, p, h => by
    obtain ⟨hpos, hwrites⟩ := writes_zero h
    obtain ⟨n, rfl⟩ := Int.eq_ofNat_of_zero_le hpos.le
    exact ⟨_, Lays.zero, hwrites⟩
  | .grease seed, p, h => by
    rw [writeBlock, Part.writeGrease] at h ⊢
    split_ifs at h ⊢ with hneg
    obtain ⟨n, rfl⟩ := Int.eq_ofNat_of_zero_le (not_lt.mp hneg)
    rw [Int.toNat_natCast] at h ⊢
    cases hgrease : env.greases[n]? with
    | none =>
      rw [hgrease] at h
      exact nomatch h
    | some grease =>
      rw [hgrease] at h
      have hwrites : Writes p (p.writeBytes [grease, grease]) [.raw [grease, grease]] :=
        writes_bytes h
      exact ⟨_, Lays.grease hgrease, hwrites⟩
  | .random length, p, h => by
    obtain ⟨b, rfl, hwrites⟩ := writes_random h
    exact ⟨_, Lays.random, hwrites⟩
  | .domain, p, h => ⟨_, Lays.domain, writes_bytes h⟩
  | .publicKey, p, h => ⟨_, Lays.publicKey p.drawn, writes_grow (bytesOf_raw _) rfl h _⟩
  | .scope entries, p, h => by
    obtain ⟨inner, hinner, hwrites⟩ := writes_scope h fun q hq herror => by
      have := writeBlocks_lays env entries q herror
      rwa [hq] at this
    exact ⟨_, Lays.scope hinner, hwrites⟩
  | .permutation entries, p, h => by
    rw [writeBlock] at h ⊢
    have hparts := writeParts_lays env entries p.drawn
    rcases hwritten : writeParts env entries p.drawn with ⟨_ | list, drawn⟩
    · rw [hwritten] at h
      exact nomatch h
    · rw [hwritten] at h hparts
      obtain ⟨parts, hlays, rfl⟩ := hparts list rfl
      obtain ⟨shuffled, hperm, hshuffle⟩ :=
        exists_shuffled bytesOf (env.random.shuffle_perm drawn (parts.map bytesOf))
      dsimp only at h ⊢
      rw [hshuffle] at h ⊢
      obtain ⟨herror, hresult, hwithin, hdigest⟩ := writes_parts h
      exact ⟨_, Lays.permutation hlays hperm, herror, hresult, hwithin, hdigest⟩
  | .m, p, h => by
    obtain ⟨b, hb, hwrites⟩ := writes_m h
    exact ⟨_, Lays.m hb, hwrites⟩
  | .e, p, h => by
    obtain ⟨b, hb, herror, hresult, hwithin, hdigest⟩ := writes_random h
    refine ⟨_, Lays.e (b := b) ?_, herror, hresult, hwithin, hdigest⟩
    rw [hb]
    exact getD_lengths_mem _
  | .padding, p, h => writes_padding env h

/-- …some blocks… -/
theorem writeBlocks_lays (env : Env) : ∀ (blocks : List TlsBlock) (p : Part),
    (writeBlocks env blocks p).error = false →
      ∃ ls, LaysAll env p.result.length blocks ls ∧ Writes p (writeBlocks env blocks p) ls
  | [], p, h => ⟨[], LaysAll.nil, h, (List.append_nil _).symm, id, Or.inl rfl⟩
  | block :: blocks, p, h => by
    obtain ⟨ls, hls, hrest⟩ := writeBlocks_lays env blocks (writeBlock env block p) h
    obtain ⟨l, hl, hwrites⟩ := writeBlock_lays env block p hrest.error
    rw [hwrites.result, List.length_append] at hls
    exact ⟨l ++ ls, LaysAll.cons hl hls, hwrites.trans hrest⟩

/-- …and the parts of a permutation. -/
theorem writeParts_lays (env : Env) : ∀ (entries : List (List TlsBlock)) (drawn : ℕ)
    (list : List Bytes), (writeParts env entries drawn).1 = some list →
      ∃ parts, LaysParts env entries parts ∧ list = parts.map bytesOf
  | [], _, _, h => ⟨[], LaysParts.nil, (Option.some.inj h).symm⟩
  | inner :: entries, drawn, list, h => by
    rw [writeParts] at h
    cases herror : (writeBlocks env inner { drawn }).error with
    | true =>
      rw [if_pos herror] at h
      exact nomatch h
    | false =>
      rw [if_neg (by rw [herror]; exact Bool.false_ne_true)] at h
      obtain ⟨l, hl, hwrites⟩ := writeBlocks_lays env inner { drawn } herror
      obtain ⟨rest, hrest, rfl⟩ := Option.map_eq_some_iff.mp h
      obtain ⟨parts, hparts, rfl⟩ := writeParts_lays env entries _ rest hrest
      exact ⟨l :: parts, LaysParts.cons hl hparts, by rw [List.map_cons, hwrites.result]; rfl⟩

end

/-! ## The hello -/

/-- **The digest is put over the zeros**, with the time in its last bytes. -/
theorem finalize_ok {hmac : Hmac} {key : Bytes} (h : (p.finalize hmac key).error = false) :
    p.error = false ∧ ∃ position, p.digestPosition = some position ∧
      (p.finalize hmac key).digestPosition = some position ∧
      (position + kHelloDigestLength ≤ p.result.length →
        ∃ digest : Bytes, digest.length = kHelloDigestLength ∧
          (p.finalize hmac key).result = overwrite p.result position digest) := by
  have herror : p.error = false := by
    cases herror : p.error with
    | false => rfl
    | true =>
      rw [Part.finalize, if_pos herror] at h
      exact nomatch herror.symm.trans h
  have hnot : ¬p.error = true := by
    rw [herror]
    exact Bool.false_ne_true
  cases hposition : p.digestPosition with
  | none =>
    rw [Part.finalize, if_neg hnot, hposition] at h
    exact nomatch h
  | some position =>
    have hlength := hmac.length_hmacSha256 key p.result
    have hdigest : kHelloDigestLength = 32 := rfl
    set c := hmac.hmacSha256 key p.result with hc
    set x := (slice (overwrite p.result position c) (position + kHelloDigestLength - 4) 4).zipWith
      (· ^^^ ·) (littleEndian 4 hmac.now) with hx
    have hfinal : p.finalize hmac key = { p with
        result := overwrite (overwrite p.result position c)
          (position + kHelloDigestLength - 4) x } := by
      rw [Part.finalize, if_neg hnot, hposition]
    rw [hfinal]
    refine ⟨herror, position, rfl, hposition, fun hfit => ?_⟩
    rw [← hlength] at hfit
    have hfour : x.length = 4 := by
      rw [hx, List.length_zipWith, length_slice (by rw [length_overwrite hfit]; omega),
        length_littleEndian]
      rfl
    have hbehind : position + kHelloDigestLength - 4 = position + 28 := by omega
    dsimp only
    rw [hbehind, overwrite_overwrite hfit (by omega)]
    exact ⟨_, (length_overwrite (by omega)).trans hlength, rfl⟩

/-- **TLS ClientHello generation.**  When the generator reports no error, the hello is what the
rules lay out but for the digest: that is in the place of zeros the rules lay out,
`kHelloDigestLength` of them and apart from every length, and each length is that of the bytes
inside its scope. -/
theorem client_hello (env : Env) (hmac : Hmac) (rules : List TlsBlock) (key : Bytes)
    (h : (generator env hmac rules key).error = false) :
    let hello := prepareClientHello env hmac rules key
    ∃ ls position, LaysAll env 0 rules ls ∧
      hello.data = overwrite (bytesOf ls) position hello.digest ∧
      hello.data.length = (bytesOf ls).length ∧ hello.data.length ≤ kClientHelloLimit ∧
      (generator env hmac rules key).digestPosition = some position ∧
      (position, zeros) ∈ Layout.leavesAll kLengthSize 0 ls ∧
      hello.digest.length = kHelloDigestLength ∧
      position + kHelloDigestLength ≤ hello.data.length ∧
      ∀ field ∈ Layout.fieldsAll kLengthSize 0 ls,
        ofBigEndian (slice hello.data field.1 kLengthSize) = field.2 ∧
        field.1 + kLengthSize + field.2 ≤ hello.data.length ∧
        (position + kHelloDigestLength ≤ field.1 ∨ field.1 + kLengthSize ≤ position) := by
  intro hello
  obtain ⟨herror, position, hbefore, hafter, hfinal⟩ := finalize_ok h
  obtain ⟨ls, hlays, hwrites⟩ := writeBlocks_lays env rules {} herror
  have hbytes : (writeBlocks env rules {}).result = bytesOf ls := hwrites.result
  have hleaf : (position, zeros) ∈ Layout.leavesAll kLengthSize 0 ls := by
    rcases hwrites.digest with hnone | ⟨q, hq, hmem⟩
    · cases hbefore.symm.trans hnone
    · obtain rfl := Option.some.inj (hbefore.symm.trans hq)
      exact hmem
  have hzeros : zeros.length = kHelloDigestLength := List.length_replicate
  have hfit : position + kHelloDigestLength ≤ (bytesOf ls).length := by
    have hwithin := (Layout.leavesAll_written 0 ls _ hleaf).within.2
    rwa [Nat.zero_add, hzeros] at hwithin
  rw [hbytes] at hfinal
  obtain ⟨digest, hdigest, hresult⟩ := hfinal hfit
  rw [← hdigest] at hfit
  have hdata : hello.data = overwrite (bytesOf ls) position digest :=
    (if_neg (by rw [h]; exact Bool.false_ne_true)).trans hresult
  have htaken : hello.digest = digest := by
    unfold hello prepareClientHello Part.take
    rw [show (generator env hmac rules key).digestPosition = some position from hafter]
    dsimp only
    rw [show (generator env hmac rules key).result = _ from hresult, ← hdigest,
      slice_overwrite hfit]
  have hlength : hello.data.length = (bytesOf ls).length := by rw [hdata, length_overwrite hfit]
  have hlimit : hello.data.length ≤ kClientHelloLimit := by
    have hwithin := hwrites.within (Nat.zero_le _)
    rw [hlength]
    rwa [hbytes] at hwithin
  refine ⟨ls, position, hlays, by rw [hdata, htaken], hlength, hlimit, hafter, hleaf,
    by rw [htaken, hdigest], by rw [hlength, ← hdigest]; exact hfit, fun field hfield => ?_⟩
  obtain ⟨hwritten, hend⟩ := Layout.fieldsAll_written 0 ls field hfield
  have hapart := Layout.leavesAll_apart 0 ls field hfield _ hleaf
  rw [hzeros] at hapart
  rw [Nat.zero_add, ← hlength] at hend
  have hread := hwritten.slice_eq
  rw [length_bigEndian] at hread
  have hmax : kClientHelloLimit = 2048 := rfl
  have hsmall : field.2 < 256 ^ kLengthSize := by
    have hwidth : 256 ^ kLengthSize = 65536 := rfl
    omega
  refine ⟨?_, hend, hapart⟩
  rw [hdata, slice_overwrite_apart hfit (by rw [hdigest]; exact hapart), hread,
    ofBigEndian_bigEndian hsmall]

/-- A hello with a permutation inside a scope and a scope inside the permutation. -/
def sampleRules : List TlsBlock :=
  [.string [22, 3, 1], .scope [.zero 32, .permutation [[.grease 0], [.scope [.domain, .e]]]],
    .padding]

/-- Nothing at random but what has to be. -/
def sampleEnv : Env where
  domain := [97, 46, 98]
  greases := List.replicate 8 0x0A
  random :=
    { bytes := fun _ size => List.replicate size 7
      length_bytes := fun _ _ => List.length_replicate
      index := fun _ _ => 1
      publicKey := fun _ => List.replicate 32 9
      shuffle := fun _ list => list
      shuffle_perm := fun _ list => List.Perm.refl list }

def sampleHmac : Hmac where
  hmacSha256 _ _ := List.replicate kHelloDigestLength 1
  length_hmacSha256 _ _ := List.length_replicate
  now := 1700000000

theorem client_hello_sample : ∃ ls position, LaysAll sampleEnv 0 sampleRules ls ∧
    (prepareClientHello sampleEnv sampleHmac sampleRules []).data.length = (bytesOf ls).length ∧
      (position, zeros) ∈ Layout.leavesAll kLengthSize 0 ls := by
  obtain ⟨ls, position, hlays, -, hlength, -, -, hleaf, -⟩ :=
    client_hello sampleEnv sampleHmac sampleRules [] (by decide +kernel)
  exact ⟨ls, position, hlays, hlength, hleaf⟩

end TlsHello

end Mtproto

end Yunogram
