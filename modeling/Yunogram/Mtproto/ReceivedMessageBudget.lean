import Yunogram.Mtproto.ReceivedMessageBounds

/-!
# Mtproto/ReceivedMessageBudget — how much is unpacked for a received message

The budget is passed on by reference through the containers and packed messages of a message, and
what was unpacked is charged after it was unpacked.  So the invariant is about both: what was
inflated and what is left add up to what there was, until an `ungzip` fails; then the connection is
restarted and nothing more is handled.

`unpacked_within_budget`: for a received message `inflate` writes at most one byte more than
`kMaxUnpackedMessageLength`, the budget is never negative, no more than `kMaxGzipNesting` packed
messages are in each other, and the recursion is bounded by the ints of the message and the budget.
-/

open Machinery

namespace Yunogram

namespace Mtproto

variable {σ ζ : Type} {env : Env σ ζ}

/-- A call is allowed: its budget and nesting are, and what it may still reach. -/
def Call.Within (call : Call σ) (reach : ℤ) : Prop :=
  0 ≤ call.unpackedBudget.bytes ∧ call.gzipDepth ≤ kMaxGzipNesting ∧
    4 * ((call.level : ℤ) + call.ints.length) + call.unpackedBudget.bytes ≤ reach

/-- **What was inflated was charged**, or handling ends because a message could not be unpacked. -/
structure Outcome.Charged (run : Run σ) (reach : ℤ) (outcome : Outcome σ) : Prop where
  calls : ∃ calls, outcome.2.calls = run.calls ++ calls ∧ ∀ call ∈ calls, call.Within reach
  nonneg : 0 ≤ outcome.2.unpackedBudget.bytes
  le : outcome.2.unpackedBudget.bytes ≤ run.unpackedBudget.bytes
  balance :
    outcome.2.inflated + outcome.2.unpackedBudget.bytes =
        run.inflated + run.unpackedBudget.bytes ∨
      outcome.1 = .ok .restartConnection ∧
        outcome.2.inflated ≤ run.inflated + run.unpackedBudget.bytes + 1

namespace Outcome.Charged

variable {run next : Run σ} {reach reach' : ℤ} {outcome : Outcome σ}

/-- Nothing is unpacked. -/
theorem unchanged (hcalls : ∃ calls, outcome.2.calls = run.calls ++ calls ∧
      ∀ call ∈ calls, call.Within reach)
    (hbudget : outcome.2.unpackedBudget = run.unpackedBudget)
    (hinflated : outcome.2.inflated = run.inflated) (hnonneg : 0 ≤ run.unpackedBudget.bytes) :
    Outcome.Charged run reach outcome where
  calls := hcalls
  nonneg := hbudget ▸ hnonneg
  le := le_of_eq (congrArg Budget.bytes hbudget)
  balance := .inl (by rw [hbudget, hinflated])

/-- What was charged before is charged with what comes after. -/
theorem after (h : Outcome.Charged next reach' outcome) (hreach : reach' ≤ reach)
    (hcalls : ∃ calls, next.calls = run.calls ++ calls ∧ ∀ call ∈ calls, call.Within reach)
    (hle : next.unpackedBudget.bytes ≤ run.unpackedBudget.bytes)
    (hbalance : next.inflated + next.unpackedBudget.bytes =
      run.inflated + run.unpackedBudget.bytes) : Outcome.Charged run reach outcome where
  calls := by
    obtain ⟨first, hfirst, hfirstWithin⟩ := hcalls
    obtain ⟨more, hmore, hmoreWithin⟩ := h.calls
    refine ⟨first ++ more, by rw [hmore, hfirst, List.append_assoc], fun call hmem => ?_⟩
    rcases List.mem_append.mp hmem with hmem | hmem
    · exact hfirstWithin call hmem
    · obtain ⟨hbudget, hdepth, hcall⟩ := hmoreWithin call hmem
      exact ⟨hbudget, hdepth, hcall.trans hreach⟩
  nonneg := h.nonneg
  le := h.le.trans hle
  balance := by
    rw [← hbalance]
    exact h.balance

end Outcome.Charged

/-- Only the session is handled. -/
theorem Outcome.Charged.handled {run : Run σ} {reach : ℤ} {outcome : Outcome σ}
    (session : Session σ) (h : outcome.2 = run.withSession session)
    (hnonneg : 0 ≤ run.unpackedBudget.bytes) : Outcome.Charged run reach outcome :=
  .unchanged ⟨[], by rw [h, List.append_nil]; rfl, fun _ hmem => nomatch hmem⟩
    (by rw [h]; rfl) (by rw [h]; rfl) hnonneg

/-- Unpacking fails. -/
theorem Outcome.Charged.refused {run : Run σ} {reach : ℤ} {string : Reader Bytes}
    {budget : Budget} (hzlib : env.zlib.Reports) (ints : MtpBuffer)
    (hbudget : run.unpackedBudget = budget) (hnonneg : 0 ≤ run.unpackedBudget.bytes) :
    Outcome.Charged run reach
      ((run.wrote (ungzip string env.zlib ints budget).2).returns .restartConnection) where
  calls := ⟨[], (List.append_nil _).symm, fun call hmem => nomatch hmem⟩
  nonneg := hnonneg
  le := le_refl _
  balance := by
    rw [hbudget] at hnonneg ⊢
    have hwritten : ((ungzip string env.zlib ints budget).2 : ℤ) ≤ budget.bytes + 1 :=
      (ungzip_spec hzlib ints hnonneg).1
    refine .inr ⟨rfl, ?_⟩
    simp only [Run.returns, Run.wrote]
    omega

/-- The run after a message was unpacked and charged. -/
def Run.unpacked (run : Run σ) (response : MtpBuffer × ℕ) : Run σ :=
  (run.wrote response.2).spend response.1

/-- **What is unpacked is what is charged**, and it fits. -/
theorem unpacked_spec {run : Run σ} {string : Reader Bytes} {ints : MtpBuffer}
    {response : MtpBuffer × ℕ} (hzlib : env.zlib.Reports) (hnonneg : 0 ≤ run.unpackedBudget.bytes)
    (hresponse : ungzip string env.zlib ints run.unpackedBudget = response)
    (hne : response.1 ≠ []) :
    0 ≤ (run.unpacked response).unpackedBudget.bytes ∧
      (run.unpacked response).unpackedBudget.bytes + 4 * response.1.length =
        run.unpackedBudget.bytes ∧
      (run.unpacked response).inflated + (run.unpacked response).unpackedBudget.bytes =
        run.inflated + run.unpackedBudget.bytes := by
  obtain ⟨hbytes, hfit⟩ := (ungzip_spec hzlib ints hnonneg).2 (hresponse.symm ▸ hne)
  rw [hresponse] at hbytes hfit
  simp only [Run.unpacked, Run.spend, Run.wrote, Budget.bytes_spend]
  omega

/-- Only the session was handled before. -/
theorem Outcome.Charged.of_withSession {run : Run σ} {reach reach' : ℤ} {outcome : Outcome σ}
    {session : Session σ} (h : Outcome.Charged (run.withSession session) reach' outcome)
    (hreach : reach' ≤ reach) : Outcome.Charged run reach outcome :=
  h.after hreach ⟨[], (List.append_nil _).symm, fun _ hmem => nomatch hmem⟩ le_rfl rfl

/-- Unpacking succeeds, and what comes next is charged. -/
theorem Outcome.Charged.of_unpacked {run : Run σ} {reach reach' : ℤ} {string : Reader Bytes}
    {ints : MtpBuffer} {response : MtpBuffer × ℕ} {outcome : Outcome σ}
    (hzlib : env.zlib.Reports) (hnonneg : 0 ≤ run.unpackedBudget.bytes)
    (hresponse : ungzip string env.zlib ints run.unpackedBudget = response)
    (hne : response.1 ≠ []) (h : Outcome.Charged (run.unpacked response) reach' outcome)
    (hreach : reach' ≤ reach) : Outcome.Charged run reach outcome := by
  obtain ⟨hspent, hsize, hbalance⟩ := unpacked_spec hzlib hnonneg hresponse hne
  exact h.after hreach ⟨[], (List.append_nil _).symm, fun _ hmem => nomatch hmem⟩ (by omega)
    hbalance

/-- **A result charges what it unpacks.** -/
theorem handleRpcResult_charged (hzlib : env.zlib.Reports) (ints : MtpBuffer) (info : OuterInfo)
    (gzipDepth : ℕ) (run : Run σ) (hnonneg : 0 ≤ run.unpackedBudget.bytes) {reach : ℤ} :
    Outcome.Charged run reach (handleRpcResult env ints info gzipDepth run) := by
  rw [handleRpcResult]
  split
  · exact .handled run.session rfl hnonneg
  · split
    · exact .handled run.session rfl hnonneg
    · dsimp only
      split
      · exact .handled _ rfl hnonneg
      · split
        · exact .handled _ rfl hnonneg
        · split
          · split
            · exact .handled _ rfl hnonneg
            · split
              · exact .of_withSession (.refused hzlib _ rfl hnonneg) le_rfl
              · rename_i typeId response hresponse
                have hne := hresponse ▸ List.cons_ne_nil typeId response
                refine .of_withSession (.of_unpacked hzlib hnonneg rfl hne ?_ le_rfl) le_rfl
                rw [← hresponse]
                exact .handled _ rfl (unpacked_spec hzlib hnonneg rfl hne).1
          · exact .handled _ rfl hnonneg

/-- A call is entered. -/
theorem entered_within {ints : MtpBuffer} {info : OuterInfo} {gzipDepth level : ℕ} {run : Run σ}
    (hdepth : gzipDepth ≤ kMaxGzipNesting) (hnonneg : 0 ≤ run.unpackedBudget.bytes) :
    ∃ calls, (run.enter ints info gzipDepth level).calls = run.calls ++ calls ∧
      ∀ call ∈ calls, call.Within (4 * (level + ints.length) + run.unpackedBudget.bytes) := by
  refine ⟨_, rfl, fun call hmem => ?_⟩
  obtain rfl := List.mem_singleton.mp hmem
  exact ⟨hnonneg, hdepth, le_rfl⟩

/-- What a call does it does after it is entered. -/
theorem Outcome.Charged.entered {ints : MtpBuffer} {info : OuterInfo} {gzipDepth level : ℕ}
    {run : Run σ} {reach : ℤ} {outcome : Outcome σ} (hdepth : gzipDepth ≤ kMaxGzipNesting)
    (hnonneg : 0 ≤ run.unpackedBudget.bytes)
    (h : Outcome.Charged (run.enter ints info gzipDepth level) reach outcome)
    (hreach : reach ≤ 4 * (level + ints.length) + run.unpackedBudget.bytes) :
    Outcome.Charged run (4 * (level + ints.length) + run.unpackedBudget.bytes) outcome :=
  h.after hreach (entered_within hdepth hnonneg) le_rfl rfl

/-- **What any call inflates is charged**, in the calls that are made for it too. -/
theorem handleOneReceived_charged (hzlib : env.zlib.Reports) (ints : MtpBuffer) (info : OuterInfo)
    (gzipDepth level : ℕ) (run : Run σ) (hdepth : gzipDepth ≤ kMaxGzipNesting)
    (hnonneg : 0 ≤ run.unpackedBudget.bytes) :
    Outcome.Charged run (4 * (level + ints.length) + run.unpackedBudget.bytes)
      (handleOneReceived env ints info gzipDepth level run) := by
  refine handled_rule
    (P := fun ints _ gzipDepth level run outcome => gzipDepth ≤ kMaxGzipNesting →
      0 ≤ run.unpackedBudget.bytes →
      Outcome.Charged run (4 * (level + ints.length) + run.unpackedBudget.bytes) outcome)
    (Q := fun messages _ gzipDepth level run outcome => gzipDepth ≤ kMaxGzipNesting →
      0 ≤ run.unpackedBudget.bytes →
      Outcome.Charged run (4 * (level + 1 + messages.length) + run.unpackedBudget.bytes) outcome)
    ?_ ?_ ?_ ?_ ?_ ?_ ?_ ?_ ?_ ?_ ints info gzipDepth level run hdepth hnonneg
  · intro ints info gzipDepth level run hcons hdepth hnonneg
    exact .unchanged (entered_within hdepth hnonneg) rfl rfl hnonneg
  · intro typeId rest info gzipDepth level run session result hcons hdepth hnonneg
    exact .unchanged (entered_within hdepth hnonneg) rfl rfl hnonneg
  · intro typeId rest info gzipDepth level run hcons hdepth hnonneg
    exact .entered hdepth hnonneg (.refused hzlib rest rfl hnonneg) le_rfl
  · intro typeId rest info gzipDepth level run outcome hcons hdepth hne ih hle hnonneg
    have hspent := (unpacked_spec hzlib hnonneg rfl hne).1
    have hsize := (unpacked_spec hzlib hnonneg rfl hne).2.1
    refine .entered hle hnonneg (.of_unpacked hzlib ?_ rfl hne (ih hdepth hspent) le_rfl) ?_
    · exact hnonneg
    · change 4 * (((level + 1 : ℕ) : ℤ) + _) +
        (run.unpacked (ungzip env.readers.string env.zlib rest run.unpackedBudget)).unpackedBudget.bytes ≤ _
      rw [List.length_cons]
      push_cast
      omega
  · intro typeId msgsCount messages info gzipDepth level run outcome hcons ih hdepth hnonneg
    refine .entered hdepth hnonneg (ih hdepth hnonneg) ?_
    rw [List.length_cons, List.length_cons]
    simp only [Run.enter]
    push_cast
    omega
  · intro typeId rest info gzipDepth level run hcons hdepth hnonneg
    refine .entered hdepth hnonneg (handleRpcResult_charged hzlib _ info gzipDepth _ ?_) le_rfl
    exact hnonneg
  · intro messages info gzipDepth level run session result hdepth hnonneg
    exact .handled session rfl hnonneg
  · intro messages rest info gzipDepth level run session outcome hlength ih hdepth hnonneg
    refine .of_withSession (ih hdepth hnonneg) ?_
    simp only [Run.withSession]
    omega
  · intro messages inner info gzipDepth level run session outcome hlength ih hdepth hnonneg
    refine .of_withSession (ih hdepth hnonneg) ?_
    simp only [Run.withSession]
    omega
  · intro messages inner rest info gzipDepth level run session next outcome hinner hrest hfirst hnext
      hdepth hnonneg
    have hcharged := hfirst hdepth hnonneg
    obtain ⟨calls, hcalls, hwithin⟩ := hcharged.calls
    have hle : next.unpackedBudget.bytes ≤ run.unpackedBudget.bytes := hcharged.le
    have hbalance := hcharged.balance.resolve_right fun h => nomatch h.1
    refine (hnext hdepth hcharged.nonneg).after ?_ ⟨calls, hcalls, fun call hmem => ?_⟩ hle hbalance
    · omega
    · obtain ⟨hbudget, hcallDepth, hreach⟩ := hwithin call hmem
      refine ⟨hbudget, hcallDepth, hreach.trans ?_⟩
      simp only [Run.withSession]
      omega

/-- **What is unpacked for a received message is within its budget.**  All bytes that were inflated
are charged and the budget stays nonnegative; when a message cannot be unpacked the connection is
restarted, and then at most one byte more was inflated than the budget allows.  Every call has a
budget that is not negative and at most `kMaxGzipNesting` packed messages around it, and lies in
no more calls than the message and the budget have ints. -/
theorem unpacked_within_budget (hzlib : env.zlib.Reports) (ints : MtpBuffer) (info : OuterInfo)
    (session : Session σ) :
    (∀ call ∈ (handleOneReceived env ints info 0 0 (.start session fullBudget)).2.calls,
      0 ≤ call.unpackedBudget.bytes ∧ call.gzipDepth ≤ kMaxGzipNesting ∧
        4 * call.level ≤ 4 * ints.length + kMaxUnpackedMessageLength) ∧
    0 ≤ (handleOneReceived env ints info 0 0 (.start session fullBudget)).2.unpackedBudget.bytes ∧
    (((handleOneReceived env ints info 0 0 (.start session fullBudget)).2.inflated : ℤ) +
        (handleOneReceived env ints info 0 0 (.start session fullBudget)).2.unpackedBudget.bytes =
          kMaxUnpackedMessageLength ∨
      (handleOneReceived env ints info 0 0 (.start session fullBudget)).1 =
          .ok .restartConnection ∧
        (handleOneReceived env ints info 0 0 (.start session fullBudget)).2.inflated ≤
          kMaxUnpackedMessageLength + 1) := by
  have hcharged := handleOneReceived_charged hzlib ints info 0 0 (.start session fullBudget)
    (Nat.zero_le _) (Int.natCast_nonneg _)
  obtain ⟨calls, hcalls, hwithin⟩ := hcharged.calls
  have hstart : ((Run.start session fullBudget).inflated : ℤ) +
      (Run.start session fullBudget).unpackedBudget.bytes = kMaxUnpackedMessageLength := zero_add _
  have hbalance := hcharged.balance
  rw [hstart] at hbalance
  refine ⟨fun call hmem => ?_, hcharged.nonneg, hbalance.imp_right fun h => ⟨h.1, by omega⟩⟩
  rw [hcalls] at hmem
  obtain ⟨hbudget, hdepth, hreach⟩ := hwithin call hmem
  have hfull : (Run.start session fullBudget).unpackedBudget.bytes =
    (kMaxUnpackedMessageLength : ℤ) := rfl
  exact ⟨hbudget, hdepth, by omega⟩

/-! ## A packed message that is too long -/

/-- More zeros than may be unpacked, as a single block of a gzip stream. -/
@[irreducible] def packedZeros : Bytes :=
  [31, 139, 8, 0, 0, 0, 0, 0, 2, 3, 237, 192, 129, 0, 0, 0, 0, 128, 160, 253, 169, 23, 169] ++
    List.replicate 32514 0 ++ [96, 109, 156, 162, 241, 21, 2, 0, 2]

/-- How many. -/
@[irreducible] def zeroCount : ℕ := 33554965

/-- The ints of the serialised string. -/
@[irreducible] def packedInts : MtpBuffer := intsOf ([254, 34, 127, 0] ++ packedZeros ++ [0, 0])

/-- Reading it. -/
def zerosReader : Reader Bytes where
  read := fun ints => if ints = packedInts then some (packedZeros, []) else none
  within := by
    intro ints packed rest h
    split_ifs at h
    obtain ⟨-, rfl⟩ := Prod.mk.inj (Option.some.inj h)
    exact List.nil_suffix

/-- A stream that inflates to so many zeros. -/
def zerosZlib : Zlib ℕ where
  inflateInit := fun packed => if packed = packedZeros then some zeroCount else none
  inflate := fun left availOut =>
    ⟨if left ≤ availOut then .streamEnd else .ok, List.replicate (min left availOut) 0,
      availOut - min left availOut, left - min left availOut⟩

theorem zerosReader_read (ints : MtpBuffer) :
    zerosReader.read ints = if ints = packedInts then some (packedZeros, []) else none := rfl

theorem zerosZlib_inflateInit (packed : Bytes) :
    zerosZlib.inflateInit packed = if packed = packedZeros then some zeroCount else none := rfl

theorem zerosZlib_reports : zerosZlib.Reports := by
  intro left availOut
  simp only [zerosZlib, List.length_replicate]
  omega

/-- A stream that is too long is inflated up to the limit, and one byte more. -/
theorem unpack_zeros {sizeLimit : Budget} (left : ℕ) (result : MtpBuffer)
    (hfit : 4 * (result.length : ℤ) ≤ sizeLimit.bytes)
    (hlong : sizeLimit.bytes < 4 * result.length + left) :
    ∃ written, unpack zerosZlib sizeLimit left result = (none, written) ∧
      (4 * (result.length : ℤ) + written = sizeLimit.bytes + 1) := by
  fun_induction unpack zerosZlib sizeLimit left result with
  | case1 left result h extra =>
    have hextra : extra.availOut = 0 := by
      simp only [extra, zerosZlib]
      omega
    have hwritten : extra.written.length = 1 := by
      simp only [extra, zerosZlib, List.length_replicate]
      omega
    refine ⟨_, by rw [if_neg fun hend => by omega], ?_⟩
    omega
  | case2 left result h inflated hcode =>
    simp only [inflated, zerosZlib] at hcode
    split_ifs at hcode
  | case3 left result h inflated grown hcode =>
    have hspec := chunkSize_spec h
    simp only [inflated, zerosZlib] at hcode
    split_ifs at hcode with hend
    omega
  | case4 left result h inflated hcode hroom =>
    have hspec := chunkSize_spec h
    simp only [inflated, zerosZlib] at hroom
    omega
  | case5 left result h inflated grown hcode hroom more ih =>
    have hspec := chunkSize_spec h
    have hwritten : inflated.written.length = chunkSize sizeLimit result := by
      simp only [inflated, zerosZlib, List.length_replicate]
      omega
    have hleft : inflated.stream = left - chunkSize sizeLimit result := by
      simp only [inflated, zerosZlib]
      omega
    have hgrown : grown.length = result.length + chunkSize sizeLimit result / 4 := by
      rw [List.length_append, length_chunkOf]
    obtain ⟨written, hmore, htotal⟩ := ih (by omega) (by omega)
    exact ⟨_, by rw [show more = (none, written) from hmore], by omega⟩

/-- Unpacking fails when the loop gives up. -/
theorem ungzip_refused {zlib : Zlib ζ} {string : Reader Bytes} {ints rest : MtpBuffer}
    {packed : Bytes} {stream : ζ} {sizeLimit : Budget} {written : ℕ}
    (hlimit : ¬ sizeLimit.bytes ≤ 0) (hread : string.read ints = some (packed, rest))
    (hinit : zlib.inflateInit packed = some stream)
    (hunpack : unpack zlib sizeLimit stream [] = (none, written)) :
    ungzip string zlib ints sizeLimit = ([], written) := by
  rw [ungzip, if_neg hlimit, hread]
  dsimp only
  rw [hinit]
  dsimp only
  rw [hunpack]

/-- …and what was inflated until then was inflated. -/
theorem handleOneReceived_refused {rest : MtpBuffer} {info : OuterInfo} {level written : ℕ}
    {run : Run σ}
    (hungzip : ungzip env.readers.string env.zlib rest run.unpackedBudget = ([], written)) :
    (handleOneReceived env (mtpcGzipPacked :: rest) info 0 level run).2.inflated =
      run.inflated + written := by
  have hcons : Cons.ofTypeId mtpcGzipPacked = .gzipPacked := if_pos rfl
  have hdepth : ¬ kMaxGzipNesting ≤ 0 := by decide
  have hrun : (run.enter (mtpcGzipPacked :: rest) info 0 level).unpackedBudget =
      run.unpackedBudget := rfl
  rw [handleOneReceived.eq_def]
  simp only [hcons]
  rw [if_neg hdepth, hrun, hungzip, if_pos rfl]
  rfl

theorem ungzip_zeros :
    ungzip zerosReader zerosZlib packedInts fullBudget = ([], kMaxUnpackedMessageLength + 1) := by
  have hlimit : fullBudget.bytes = (kMaxUnpackedMessageLength : ℤ) := rfl
  have hcount : zeroCount = kMaxUnpackedMessageLength + 533 := by
    rw [zeroCount, kMaxUnpackedMessageLength]
  have hmax : 0 < kMaxUnpackedMessageLength := by
    rw [kMaxUnpackedMessageLength]
    norm_num
  have hfit : 4 * (([] : MtpBuffer).length : ℤ) ≤ fullBudget.bytes := Int.natCast_nonneg _
  obtain ⟨written, hunpack, htotal⟩ :=
    unpack_zeros zeroCount [] hfit (by rw [hlimit, hcount, List.length_nil]; omega)
  rw [hlimit, List.length_nil] at htotal
  have hwritten : written = kMaxUnpackedMessageLength + 1 := by omega
  rw [hwritten] at hunpack
  have hread : zerosReader.read packedInts = some (packedZeros, []) := by
    rw [zerosReader_read, if_pos (Eq.refl packedInts)]
  have hinit : zerosZlib.inflateInit packedZeros = some zeroCount := by
    rw [zerosZlib_inflateInit, if_pos (Eq.refl packedZeros)]
  exact ungzip_refused (by rw [hlimit]; omega) hread hinit hunpack

/-- **One byte more than the budget is inflated** for a message of more zeros than it allows. -/
theorem one_byte_more_inflated :
    (handleOneReceived (quietEnv zerosZlib zerosReader) (mtpcGzipPacked :: packedInts) timely 0 0
      (.start quietSession fullBudget)).2.inflated = kMaxUnpackedMessageLength + 1 :=
  (handleOneReceived_refused ungzip_zeros).trans (Nat.zero_add _)

theorem unpacked_within_budget_zeros :
    zerosZlib.Reports ∧
      0 ≤ (handleOneReceived (quietEnv zerosZlib zerosReader) (mtpcGzipPacked :: packedInts) timely
        0 0 (.start quietSession fullBudget)).2.unpackedBudget.bytes :=
  have hzlib : (quietEnv zerosZlib zerosReader).zlib.Reports := zerosZlib_reports
  ⟨zerosZlib_reports,
    (unpacked_within_budget hzlib (mtpcGzipPacked :: packedInts) timely quietSession).2.1⟩

end Mtproto

end Yunogram
