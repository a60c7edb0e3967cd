import Yunogram.Mtproto.ReceivedMessage

/-!
# Mtproto/ReceivedMessageBounds — a received message is read within its ints

Every constructor reads within `[from, end)` and a message of a container lies in it, whatever the
ints are and however deep messages are packed in each other, except in one place: `rpc_result` asks
for three ints, its type and the id of the request, and reads a fourth.

`received_within`: the ints are left exactly when a call is made for a result that ends with the id
of its request, and the result is not ignored for its bad time.
-/

open Machinery

namespace Yunogram

namespace Mtproto

variable {σ ζ : Type} {env : Env σ ζ}

/-- **A `long` is two ints**, which is all that is asked of them. -/
def Readers.LongIsTwoInts (readers : Readers) : Prop :=
  ∀ a b rest, ∃ n, readers.long.read (a :: b :: rest) = some (n, rest)

/-- A result that ends with the id of its request, and is not ignored for its bad time. -/
def Call.Bare (env : Env σ ζ) (call : Call σ) : Prop :=
  ∃ a b, call.ints = [mtpcRpcResult, a, b] ∧
    ∀ reqMsgId, env.readers.long.read [a, b] = some (reqMsgId, []) → call.info.badTime = true →
      env.wasSent call.session reqMsgId ≠ 0

/-- What was sent is what fixes the time. -/
theorem fixBadTime_iff {reqMsgId : ℕ} {info : OuterInfo} {session : Session σ} :
    (fixBadTime env [reqMsgId] info session).1 = true ↔
      (info.badTime = true → env.wasSent session reqMsgId ≠ 0) := by
  have hany : ([reqMsgId].any fun id => env.wasSent session id ≠ 0) = true ↔
      env.wasSent session reqMsgId ≠ 0 := by
    rw [List.any_cons, List.any_nil, Bool.or_false, decide_eq_true_iff]
  rw [fixBadTime]
  by_cases hbad : info.badTime = true
  · rw [if_pos hbad, requestsFixTimeSalt]
    by_cases hsent : env.wasSent session reqMsgId ≠ 0
    · rw [if_pos (hany.mpr hsent)]
      exact iff_of_true rfl fun _ => hsent
    · rw [if_neg (mt hany.mp hsent)]
      exact iff_of_false Bool.false_ne_true fun h => hsent (h hbad)
  · rw [if_neg hbad]
    exact iff_of_true rfl fun h => absurd h hbad

theorem ofTypeId_rpcResult {typeId : UInt32} :
    Cons.ofTypeId typeId = .rpcResult ↔ typeId = mtpcRpcResult := by
  constructor
  · intro h
    rw [Cons.ofTypeId] at h
    iterate 9 (split at h; exact nomatch h)
    split at h
    · assumption
    · iterate 2 (split at h; exact nomatch h)
      exact nomatch h
  · rintro rfl
    rfl

/-- **A result leaves its ints exactly when it is bare.** -/
theorem handleRpcResult_within (hlong : env.readers.LongIsTwoInts) (rest : MtpBuffer)
    (info : OuterInfo) (gzipDepth level : ℕ) (run : Run σ) :
    (handleRpcResult env (mtpcRpcResult :: rest) info gzipDepth run).1 = .error .outOfBounds ↔
      Call.Bare env ⟨mtpcRpcResult :: rest, info, gzipDepth, level, run.unpackedBudget,
        run.session⟩ := by
  rw [handleRpcResult]
  rcases rest with _ | ⟨a, _ | ⟨b, rest⟩⟩
  · constructor
    · exact fun h => by cases h
    · rintro ⟨_, _, ⟨⟩, _⟩
  · constructor
    · exact fun h => by cases h
    · rintro ⟨_, _, ⟨⟩, _⟩
  · obtain ⟨reqMsgId, hread⟩ := hlong a b rest
    have hlength : ¬ (mtpcRpcResult :: a :: b :: rest).length < 3 :=
      Nat.not_lt.mpr (Nat.le_add_left 3 _)
    rw [if_neg hlength, List.tail_cons, hread]
    dsimp only
    by_cases hfixed : (fixBadTime env [reqMsgId] info run.session).1 = true
    · rw [if_neg (by rw [hfixed]; exact Bool.noConfusion)]
      cases rest with
      | nil =>
        refine iff_of_true rfl ⟨a, b, rfl, fun id hid => ?_⟩
        obtain rfl := (Prod.mk.inj (Option.some.inj (hread.symm.trans hid))).1
        exact fixBadTime_iff.mp hfixed
      | cons typeId rest =>
        refine iff_of_false ?_ (by rintro ⟨_, _, ⟨⟩, _⟩)
        dsimp only [readAt, List.getElem?_cons_zero]
        split_ifs
        · exact fun h => by cases h
        · split
          · exact fun h => by cases h
          · exact fun h => by cases h
        · exact fun h => by cases h
    · rw [if_pos (Bool.eq_false_iff.mpr hfixed)]
      refine iff_of_false (fun h => by cases h) ?_
      rintro ⟨a', b', hints, hsent⟩
      obtain ⟨-, rfl, rfl, rfl⟩ : mtpcRpcResult = mtpcRpcResult ∧ a = a' ∧ b = b' ∧ rest = [] := by
        simpa using hints
      exact hfixed (fixBadTime_iff.mpr (hsent reqMsgId hread))

/-- A result makes no calls. -/
theorem handleRpcResult_calls (ints : MtpBuffer) (info : OuterInfo) (gzipDepth : ℕ) (run : Run σ) :
    (handleRpcResult env ints info gzipDepth run).2.calls = run.calls := by
  rw [handleRpcResult]
  split
  · rfl
  · split
    · rfl
    · dsimp only
      split
      · rfl
      · split
        · rfl
        · split
          · split
            · rfl
            · split
              · rfl
              · rfl
          · rfl

/-- The calls an outcome was reached by, besides `made`, are bare exactly where it left the ints. -/
def Outcome.Bounded (env : Env σ ζ) (run : Run σ) (made : List (Call σ)) (outcome : Outcome σ) :
    Prop :=
  ∃ calls, outcome.2.calls = run.calls ++ (made ++ calls) ∧
    (outcome.1 = .error .outOfBounds ↔ ∃ call ∈ made ++ calls, call.Bare env)

namespace Outcome.Bounded

variable {run next : Run σ} {made made' more : List (Call σ)} {outcome : Outcome σ}

/-- An outcome is reached by the calls it was made with, when none is bare. -/
theorem returned (hcalls : outcome.2.calls = run.calls ++ made)
    (hresult : outcome.1 ≠ .error .outOfBounds) (hmade : ∀ call ∈ made, ¬ call.Bare env) :
    Outcome.Bounded env run made outcome := by
  refine ⟨[], by rw [List.append_nil, hcalls], iff_of_false hresult ?_⟩
  rintro ⟨call, hmem, hbare⟩
  rw [List.append_nil] at hmem
  exact hmade call hmem hbare

/-- Calls that are not bare come first. -/
theorem after (h : Outcome.Bounded env next made' outcome)
    (hcalls : next.calls = run.calls ++ (made ++ more))
    (hmade : ∀ call ∈ made ++ more, ¬ call.Bare env) : Outcome.Bounded env run made outcome := by
  obtain ⟨calls, hnext, hiff⟩ := h
  refine ⟨more ++ (made' ++ calls), ?_, hiff.trans ⟨?_, ?_⟩⟩
  · rw [hnext, hcalls, List.append_assoc, List.append_assoc]
  · rintro ⟨call, hmem, hbare⟩
    exact ⟨call, List.mem_append_right _ (List.mem_append_right _ hmem), hbare⟩
  · rintro ⟨call, hmem, hbare⟩
    rw [← List.append_assoc] at hmem
    rcases List.mem_append.mp hmem with hfirst | hlast
    · exact absurd hbare (hmade call hfirst)
    · exact ⟨call, hlast, hbare⟩

end Outcome.Bounded

/-- Only a result is bare. -/
theorem not_bare {typeId : UInt32} (h : Cons.ofTypeId typeId ≠ .rpcResult) {rest : MtpBuffer}
    {info : OuterInfo} {gzipDepth level : ℕ} {budget : Budget} {session : Session σ} :
    ∀ call ∈ [(⟨typeId :: rest, info, gzipDepth, level, budget, session⟩ : Call σ)],
      ¬ call.Bare env := by
  rintro call hcall ⟨a, b, hints, -⟩
  obtain rfl := List.mem_singleton.mp hcall
  exact h (ofTypeId_rpcResult.mpr (List.cons.inj hints).1)

/-- **A message is read within its ints**, but for a bare result: any call leaves the ints it is
given exactly when a call made for it is bare. -/
theorem handleOneReceived_bounded (hlong : env.readers.LongIsTwoInts) (ints : MtpBuffer)
    (info : OuterInfo) (gzipDepth level : ℕ) (run : Run σ) :
    Outcome.Bounded env run [⟨ints, info, gzipDepth, level, run.unpackedBudget, run.session⟩]
      (handleOneReceived env ints info gzipDepth level run) := by
  refine handled_rule
    (P := fun ints info gzipDepth level run outcome => Outcome.Bounded env run
      [⟨ints, info, gzipDepth, level, run.unpackedBudget, run.session⟩] outcome)
    (Q := fun _ _ _ _ run outcome => Outcome.Bounded env run [] outcome)
    ?_ ?_ ?_ ?_ ?_ ?_ ?_ ?_ ?_ ?_ ints info gzipDepth level run
  · intro ints info gzipDepth level run hcons
    refine .returned rfl (fun h => nomatch h) ?_
    cases ints with
    | nil =>
      rintro call hcall ⟨a, b, hints, -⟩
      obtain rfl := List.mem_singleton.mp hcall
      exact nomatch hints
    | cons typeId rest => exact not_bare (hcons typeId rest rfl)
  · intro typeId rest info gzipDepth level run session result hcons
    exact .returned rfl (fun h => nomatch h) (not_bare hcons)
  · intro typeId rest info gzipDepth level run hcons
    have hbare : Cons.ofTypeId typeId ≠ .rpcResult := by
      rw [hcons]
      exact Cons.noConfusion
    exact .returned rfl (fun h => nomatch h) (not_bare hbare)
  · intro typeId rest info gzipDepth level run outcome hcons hdepth hne ih
    have hbare : Cons.ofTypeId typeId ≠ .rpcResult := by
      rw [hcons]
      exact Cons.noConfusion
    exact ih.after (rfl : _ = run.calls ++ ([_] ++ [])) (not_bare hbare)
  · intro typeId msgsCount messages info gzipDepth level run outcome hcons ih
    have hbare : Cons.ofTypeId typeId ≠ .rpcResult := by
      rw [hcons]
      exact Cons.noConfusion
    exact ih.after (rfl : _ = run.calls ++ ([_] ++ [])) (not_bare hbare)
  · intro typeId rest info gzipDepth level run hcons
    obtain rfl := ofTypeId_rpcResult.mp hcons
    refine ⟨[], handleRpcResult_calls _ info gzipDepth _,
      (handleRpcResult_within hlong rest info gzipDepth level _).trans ?_⟩
    exact ⟨fun h => ⟨_, List.mem_singleton_self _, h⟩,
      fun ⟨call, hmem, hbare⟩ => List.mem_singleton.mp hmem ▸ hbare⟩
  · intro messages info gzipDepth level run session result
    exact .returned (List.append_nil _).symm (fun h => nomatch h) fun call h => nomatch h
  · intro messages rest info gzipDepth level run session outcome hlength ih
    exact ih.after (List.append_nil _).symm fun call h => nomatch h
  · intro messages inner info gzipDepth level run session outcome hlength ih
    exact ih.after (List.append_nil _).symm fun call h => nomatch h
  · intro messages inner rest info gzipDepth level run session next outcome hinner hrest hfirst hnext
    obtain ⟨calls, hcalls, hiff⟩ := hfirst
    refine hnext.after hcalls fun call hmem hbare => ?_
    exact nomatch hiff.mpr ⟨call, hmem, hbare⟩

/-- **The ints of a received message are left exactly by its bare results.** -/
theorem received_within (hlong : env.readers.LongIsTwoInts) (ints : MtpBuffer) (info : OuterInfo)
    (gzipDepth level : ℕ) (session : Session σ) (budget : Budget) :
    (handleOneReceived env ints info gzipDepth level (.start session budget)).1 ≠
        .error .outOfBounds ↔
      ∀ call ∈ (handleOneReceived env ints info gzipDepth level (.start session budget)).2.calls,
        ¬ call.Bare env := by
  obtain ⟨calls, hcalls, hiff⟩ :=
    handleOneReceived_bounded hlong ints info gzipDepth level (.start session budget)
  rw [ne_eq, hiff, not_exists, hcalls]
  exact ⟨fun h call hmem hbare => h call ⟨hmem, hbare⟩, fun h call hcall => h call hcall.1 hcall.2⟩

/-! ## A session without requests -/

/-- A reader that is not used. -/
def noReader {α : Type*} : Reader α := ⟨fun _ => none, fun h => nomatch h⟩

/-- A `long`, the low int first. -/
def longReader : Reader ℕ where
  read
    | a :: b :: rest => some (a.toNat + 2 ^ 32 * b.toNat, rest)
    | _ => none
  within := by
    rintro (_ | ⟨a, _ | ⟨b, ints⟩⟩) n rest h
    · exact nomatch h
    · exact nomatch h
    · obtain ⟨-, rfl⟩ := Prod.mk.inj (Option.some.inj h)
      exact List.suffix_append [a, b] ints

/-- A session that sent no requests. -/
def quietSession : Session Unit where
  sessionSalt := 0
  ackRequestData := []
  resendRequestData := []
  receivedMessageIds := .init
  stateAndResendRequests := .empty
  haveReceivedMessages := []
  bindMsgId := 0
  pingId := 0
  regularDc := true
  rest := ()

/-- …and what it is handled with. -/
def quietEnv (zlib : Zlib ζ) (string : Reader Bytes) : Env Unit ζ where
  zlib := zlib
  readers :=
    { long := longReader, int := noReader, string := string, msgsAck := noReader,
      badMsgNotification := noReader, badServerSalt := noReader, msgsStateInfo := noReader,
      msgsAllInfo := noReader, msgDetailedInfo := noReader, msgNewDetailedInfo := noReader,
      newSession := noReader, pong := noReader, msgsStateReq := noReader, msgResendReq := noReader }
  wasSent := fun _ _ => 0
  haveSentMap := fun _ => .empty
  requestsAcked := fun _ _ session => session
  resend := fun _ _ session => session
  resendAllIfConnected := fun session => session
  correctUnixtimeByFastRequest := fun _ _ session => session
  correctUnixtimeWithBadLocal := fun _ session => session
  unixtimeUpdate := fun _ session => session
  handleMsgsStates := fun _ _ session => session
  protocolError := [mtpcRpcError]
  isDestroyedTemporaryKeyError := fun _ => false
  notifyConnectionInited := fun session => session
  handleBindResponse := fun _ _ session => (.ignored, session)

theorem quietEnv_long (zlib : Zlib ζ) (string : Reader Bytes) :
    (quietEnv zlib string).readers.LongIsTwoInts :=
  fun a b _ => ⟨a.toNat + 2 ^ 32 * b.toNat, rfl⟩

/-- A decompressor that is not used. -/
def noZlib : Zlib Unit := ⟨fun _ => none, fun _ availOut => ⟨.error, [], availOut, ()⟩⟩

/-- What is known of a message that came in time. -/
def timely : OuterInfo := ⟨1, 0, 0, false⟩

/-- **A result of three ints is left**: its type and the id of its request are all it has. -/
theorem bare_result_left :
    (handleOneReceived (quietEnv noZlib noReader) [mtpcRpcResult, 5, 0] timely 0 0
      (.start quietSession fullBudget)).1 = .error .outOfBounds := by
  rw [handleOneReceived]
  rfl

theorem received_within_pong :
    (handleOneReceived (quietEnv noZlib noReader) [0x347773c5] timely 0 0
        (.start quietSession fullBudget)).1 ≠ .error .outOfBounds ↔
      ∀ call ∈ (handleOneReceived (quietEnv noZlib noReader) [0x347773c5] timely 0 0
        (.start quietSession fullBudget)).2.calls, ¬ call.Bare (quietEnv noZlib noReader) :=
  received_within (quietEnv_long noZlib noReader) [0x347773c5] timely 0 0 quietSession fullBudget

end Mtproto

end Yunogram
