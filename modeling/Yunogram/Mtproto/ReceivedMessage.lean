import Yunogram.Mtproto.ReceivedIds
import Yunogram.Mtproto.Ungzip

/-!
# Mtproto/ReceivedMessage — what a session does with a received message

`SessionPrivate::handleOneReceived` of `mtproto/session_private.cpp`.  A message is the ints of a
view `[from, end)`; a pointer that is moved is a list that lost its first ints, a view cut from it is
a `subspan`, and `*from` is `readAt`: both stop the code where they leave the view.

`gzip_packed` and `msg_container` hold other messages and are handled by recursion, `rpc_result`
holds a response that may be packed, the rest is read by its reader.  The code is `handleOneReceived`
with its loop `handleContained`; a `Run` is what both work on, and next to the session and the budget
it records the calls that were made and how many bytes were inflated.
-/

open Machinery

namespace Yunogram

namespace Mtproto

/-- `kMaxUnpackedMessageLength`. -/
def kMaxUnpackedMessageLength : ℕ := 32 * 1024 * 1024

/-- `kMaxGzipNesting`. -/
def kMaxGzipNesting : ℕ := 64

/-! ## The constructors -/

/-- What `handleOneReceived` switches over. -/
inductive Cons
  | gzipPacked
  | msgContainer
  | msgsAck
  | badMsgNotification
  | badServerSalt
  | msgsStateInfo
  | msgsAllInfo
  | msgDetailedInfo
  | msgNewDetailedInfo
  | rpcResult
  | newSessionCreated
  | pong
  | other
  deriving DecidableEq

/-- `mtpc_gzip_packed`. -/
def mtpcGzipPacked : UInt32 := 0x3072cfa1

/-- `mtpc_rpc_result`. -/
def mtpcRpcResult : UInt32 := 0xf35c6d01

/-- `mtpc_rpc_error`. -/
def mtpcRpcError : UInt32 := 0x2144ca19

/-- `mtpc_msgs_state_req`. -/
def mtpcMsgsStateReq : UInt32 := 0xda69fb52

/-- The constructor of a type id. -/
def Cons.ofTypeId (typeId : UInt32) : Cons :=
  if typeId = mtpcGzipPacked then .gzipPacked
  else if typeId = 0x73f1f8dc then .msgContainer
  else if typeId = 0x62d6b459 then .msgsAck
  else if typeId = 0xa7eff811 then .badMsgNotification
  else if typeId = 0xedab447b then .badServerSalt
  else if typeId = 0x04deb57d then .msgsStateInfo
  else if typeId = 0x8cc0d131 then .msgsAllInfo
  else if typeId = 0x276d3ec6 then .msgDetailedInfo
  else if typeId = 0x809db6df then .msgNewDetailedInfo
  else if typeId = mtpcRpcResult then .rpcResult
  else if typeId = 0x9ec20908 then .newSessionCreated
  else if typeId = 0x347773c5 then .pong
  else .other

/-- `MTPDbad_msg_notification`. -/
structure BadMsgNotification where
  badMsgId : ℕ
  errorCode : ℤ

/-- `MTPDbad_server_salt`. -/
structure BadServerSalt where
  badMsgId : ℕ
  newServerSalt : ℕ

/-- `MTPDnew_session_created`. -/
structure NewSessionCreated where
  firstMsgId : ℕ
  serverSalt : ℕ

/-- The readers of the serialised types. -/
structure Readers where
  long : Reader ℕ
  int : Reader ℤ
  string : Reader Bytes
  msgsAck : Reader (List ℕ)
  badMsgNotification : Reader BadMsgNotification
  badServerSalt : Reader BadServerSalt
  msgsStateInfo : Reader (ℕ × Bytes)
  msgsAllInfo : Reader (List ℕ × Bytes)
  msgDetailedInfo : Reader (ℕ × ℕ)
  msgNewDetailedInfo : Reader ℕ
  newSession : Reader NewSessionCreated
  pong : Reader (ℕ × ℕ)
  msgsStateReq : Reader (List ℕ)
  msgResendReq : Reader (List ℕ)

/-! ## The session -/

/-- `HandleResult`. -/
inductive HandleResult
  | success
  | ignored
  | restartConnection
  | resetSession
  | destroyTemporaryKey
  | parseError
  deriving DecidableEq

/-- `OuterInfo`. -/
structure OuterInfo where
  outerMsgId : ℕ
  serverSalt : ℕ
  serverTime : ℤ
  badTime : Bool

/-- `Response`: what the main thread is told. -/
structure Response where
  reply : MtpBuffer
  outerMsgId : ℕ
  requestId : ℤ

/-- What of a session a received message is handled with; `rest` is what only other code sees. -/
structure Session (σ : Type) where
  sessionSalt : ℕ
  ackRequestData : List ℕ
  resendRequestData : List ℕ
  receivedMessageIds : ReceivedIdsManager
  stateAndResendRequests : FlatMap ℕ MtpBuffer
  haveReceivedMessages : List Response
  bindMsgId : ℕ
  pingId : ℕ
  regularDc : Bool
  rest : σ

/-- The code that is called: zlib, the readers, and what else a session does. -/
structure Env (σ ζ : Type) where
  zlib : Zlib ζ
  readers : Readers
  wasSent : Session σ → ℕ → ℤ
  haveSentMap : Session σ → FlatMap ℕ ℤ
  requestsAcked : List ℕ → Bool → Session σ → Session σ
  resend : ℕ → ℤ → Session σ → Session σ
  resendAllIfConnected : Session σ → Session σ
  correctUnixtimeByFastRequest : List ℕ → ℤ → Session σ → Session σ
  correctUnixtimeWithBadLocal : ℤ → Session σ → Session σ
  unixtimeUpdate : ℤ → Session σ → Session σ
  handleMsgsStates : List ℕ → Bytes → Session σ → Session σ
  protocolError : MtpBuffer
  isDestroyedTemporaryKeyError : MtpBuffer → Bool
  notifyConnectionInited : Session σ → Session σ
  handleBindResponse : ℕ → MtpBuffer → Session σ → HandleResult × Session σ

variable {σ ζ : Type} (env : Env σ ζ)

/-- `requestsFixTimeSalt`. -/
def requestsFixTimeSalt (ids : List ℕ) (info : OuterInfo) (session : Session σ) :
    Bool × Session σ :=
  if ids.any fun id => env.wasSent session id ≠ 0 then
    (true, env.correctUnixtimeWithBadLocal info.serverTime
      (if info.serverSalt ≠ 0 then { session with sessionSalt := info.serverSalt } else session))
  else (false, session)

/-- What several constructors do first when the time is bad. -/
def fixBadTime (ids : List ℕ) (info : OuterInfo) (session : Session σ) : Bool × Session σ :=
  if info.badTime then requestsFixTimeSalt env ids info session else (true, session)

/-- The answer of several constructors that have nothing to do. -/
def OuterInfo.skipped (info : OuterInfo) : HandleResult :=
  if info.badTime then .ignored else .success

/-- `haveReceivedMessages().push_back`. -/
def Session.received (session : Session σ) (response : Response) : Session σ :=
  { session with haveReceivedMessages := session.haveReceivedMessages ++ [response] }

/-! ## The constructors that hold no message -/

/-- `case mtpc_msgs_ack`. -/
def handleMsgsAck (ints : MtpBuffer) (info : OuterInfo) (session : Session σ) :
    HandleResult × Session σ :=
  match env.readers.msgsAck.read ints with
  | none => (.parseError, session)
  | some (ids, _) =>
    if ids = [] then (info.skipped, session)
    else if info.badTime then
      let fixed := requestsFixTimeSalt env ids info session
      if fixed.1 then (.success, env.requestsAcked ids false fixed.2) else (.ignored, fixed.2)
    else
      (.success, env.requestsAcked ids false
        (env.correctUnixtimeByFastRequest ids info.serverTime session))

/-- `case mtpc_bad_msg_notification`. -/
def handleBadMsgNotification (ints : MtpBuffer) (info : OuterInfo) (session : Session σ) :
    HandleResult × Session σ :=
  match env.readers.badMsgNotification.read ints with
  | none => (.parseError, session)
  | some (data, _) =>
    let salted := if info.serverSalt ≠ 0 then { session with sessionSalt := info.serverSalt }
      else session
    if data.errorCode ∈ [16, 17, 32, 33, 64] then
      if env.wasSent session data.badMsgId = 0 then (info.skipped, session)
      else if data.errorCode ∈ [16, 17, 64] then
        (.success, env.resend data.badMsgId 0
          (env.correctUnixtimeWithBadLocal info.serverTime salted))
      else
        let session := if info.badTime then env.correctUnixtimeWithBadLocal info.serverTime salted
          else session
        if session.bindMsgId ≠ 0 then (.restartConnection, session) else (.resetSession, session)
    else if session.bindMsgId ≠ 0 then (.restartConnection, session)
    else
      let requestId := env.wasSent session data.badMsgId
      (info.skipped, if requestId ≠ 0 then
        session.received ⟨env.protocolError, info.outerMsgId, requestId⟩ else session)

/-- `case mtpc_bad_server_salt`. -/
def handleBadServerSalt (ints : MtpBuffer) (info : OuterInfo) (session : Session σ) :
    HandleResult × Session σ :=
  match env.readers.badServerSalt.read ints with
  | none => (.parseError, session)
  | some (data, _) =>
    if env.wasSent session data.badMsgId = 0 then (info.skipped, session)
    else
      let session := env.unixtimeUpdate info.serverTime
        { session with sessionSalt := data.newServerSalt }
      if session.bindMsgId ≠ 0 then (.restartConnection, session)
      else (.success, env.resend data.badMsgId 0 (env.resendAllIfConnected session))

/-- `case mtpc_msgs_state_info`. -/
def handleMsgsStateInfo (ints : MtpBuffer) (info : OuterInfo) (session : Session σ) :
    Except Fault (HandleResult × Session σ) :=
  match env.readers.msgsStateInfo.read ints with
  | none => .ok (.parseError, session)
  | some ((reqMsgId, states), _) =>
    match session.stateAndResendRequests.find? reqMsgId with
    | none => .ok (info.skipped, session)
    | some originalRequest => do
      let session := if info.badTime then
          env.correctUnixtimeWithBadLocal info.serverTime
            (if info.serverSalt ≠ 0 then { session with sessionSalt := info.serverSalt }
              else session)
        else session
      expects (8 < originalRequest.length)
      let session := env.requestsAcked [reqMsgId] true session
      let request := originalRequest.drop 8
      let reader := if request.head? = some mtpcMsgsStateReq then env.readers.msgsStateReq
        else env.readers.msgResendReq
      match reader.read request with
      | none => pure (.parseError, session)
      | some (ids, _) => pure (.success, env.handleMsgsStates ids states session)

/-- `case mtpc_msgs_all_info`. -/
def handleMsgsAllInfo (ints : MtpBuffer) (info : OuterInfo) (session : Session σ) :
    HandleResult × Session σ :=
  if info.badTime then (.ignored, session)
  else match env.readers.msgsAllInfo.read ints with
    | none => (.parseError, session)
    | some ((ids, states), _) => (.success, env.handleMsgsStates ids states session)

/-- An answer is acknowledged if it was received, else asked for. -/
def Session.answered (session : Session σ) (resMsgId : ℕ) : Session σ :=
  if session.receivedMessageIds.lookup resMsgId ≠ .notFound then
    { session with ackRequestData := session.ackRequestData ++ [resMsgId] }
  else { session with resendRequestData := session.resendRequestData ++ [resMsgId] }

/-- `case mtpc_msg_detailed_info`. -/
def handleMsgDetailedInfo (ints : MtpBuffer) (info : OuterInfo) (session : Session σ) :
    HandleResult × Session σ :=
  match env.readers.msgDetailedInfo.read ints with
  | none => (.parseError, session)
  | some ((msgId, answerMsgId), _) =>
    let fixed := fixBadTime env [msgId] info session
    if fixed.1 then (.success, (env.requestsAcked [msgId] false fixed.2).answered answerMsgId)
    else (.ignored, fixed.2)

/-- `case mtpc_msg_new_detailed_info`. -/
def handleMsgNewDetailedInfo (ints : MtpBuffer) (info : OuterInfo) (session : Session σ) :
    HandleResult × Session σ :=
  if info.badTime then (.ignored, session)
  else match env.readers.msgNewDetailedInfo.read ints with
    | none => (.parseError, session)
    | some (answerMsgId, _) => (.success, session.answered answerMsgId)

/-- `case mtpc_new_session_created`; the ints that were read are passed on. -/
def handleNewSessionCreated (ints : MtpBuffer) (info : OuterInfo) (session : Session σ) :
    Except Fault (HandleResult × Session σ) :=
  match env.readers.newSession.read ints with
  | none => .ok (.parseError, session)
  | some (data, rest) =>
    let fixed := fixBadTime env [data.firstMsgId] info session
    if fixed.1 then do
      let session := { fixed.2 with sessionSalt := data.serverSalt }
      let toResend := ((env.haveSentMap session).entries.takeWhile
        fun sent => sent.1 < data.firstMsgId).filter fun sent => sent.2 ≠ 0
      let session := toResend.foldl (fun session sent => env.resend sent.1 10 session) session
      let update ← subspan ints 0 (ints.length - rest.length)
      pure (.success, session.received ⟨update, info.outerMsgId, 0⟩)
    else .ok (.ignored, fixed.2)

/-- `case mtpc_pong`. -/
def handlePong (ints : MtpBuffer) (info : OuterInfo) (session : Session σ) :
    HandleResult × Session σ :=
  match env.readers.pong.read ints with
  | none => (.parseError, session)
  | some ((msgId, pingId), _) =>
    if env.wasSent session msgId = 0 then (.ignored, session)
    else
      let session := if pingId = session.pingId then { session with pingId := 0 } else session
      let fixed := fixBadTime env [msgId] info session
      if fixed.1 then (.success, env.requestsAcked [msgId] true fixed.2) else (.ignored, fixed.2)

/-- What is none of the constructors is an update. -/
def handleUpdates (ints : MtpBuffer) (info : OuterInfo) (session : Session σ) :
    HandleResult × Session σ :=
  if info.badTime then (.resetSession, session)
  else if session.regularDc then (.success, session.received ⟨ints, info.outerMsgId, 0⟩)
  else (.success, session)

/-- The constructors that hold no message. -/
def handlePlain (cons : Cons) (ints : MtpBuffer) (info : OuterInfo) (session : Session σ) :
    Except Fault (HandleResult × Session σ) :=
  match cons with
  | .msgsAck => .ok (handleMsgsAck env ints info session)
  | .badMsgNotification => .ok (handleBadMsgNotification env ints info session)
  | .badServerSalt => .ok (handleBadServerSalt env ints info session)
  | .msgsStateInfo => handleMsgsStateInfo env ints info session
  | .msgsAllInfo => .ok (handleMsgsAllInfo env ints info session)
  | .msgDetailedInfo => .ok (handleMsgDetailedInfo env ints info session)
  | .msgNewDetailedInfo => .ok (handleMsgNewDetailedInfo env ints info session)
  | .newSessionCreated => handleNewSessionCreated env ints info session
  | .pong => .ok (handlePong env ints info session)
  | .gzipPacked | .msgContainer | .rpcResult | .other => .ok (handleUpdates ints info session)

/-! ## Runs -/

/-- A call of `handleOneReceived`: its arguments, how many calls it lies in, and what it found. -/
structure Call (σ : Type) where
  ints : MtpBuffer
  info : OuterInfo
  gzipDepth : ℕ
  level : ℕ
  unpackedBudget : Budget
  session : Session σ

/-- What a received message is handled on, the calls that were made for it and the number of bytes
that were inflated. -/
structure Run (σ : Type) where
  session : Session σ
  unpackedBudget : Budget
  inflated : ℕ
  calls : List (Call σ)

namespace Run

variable (run : Run σ)

/-- A call is made. -/
def enter (ints : MtpBuffer) (info : OuterInfo) (gzipDepth level : ℕ) : Run σ :=
  { run with
    calls := run.calls ++ [⟨ints, info, gzipDepth, level, run.unpackedBudget, run.session⟩] }

/-- `inflate` wrote. -/
def wrote (written : ℕ) : Run σ := { run with inflated := run.inflated + written }

/-- `unpackedBudget -= int(response.size() * sizeof(mtpPrime))`. -/
def spend (response : MtpBuffer) : Run σ :=
  { run with unpackedBudget := run.unpackedBudget.spend response }

/-- The session is another. -/
def withSession (session : Session σ) : Run σ := { run with session := session }

end Run

/-- The run before the first call. -/
def Run.start (session : Session σ) (unpackedBudget : Budget) : Run σ :=
  ⟨session, unpackedBudget, 0, []⟩

/-- The budget of a message that was received: `kMaxUnpackedMessageLength`. -/
def fullBudget : Budget := ⟨kMaxUnpackedMessageLength, by decide⟩

/-- What a call returns and leaves. -/
abbrev Outcome (σ : Type) := Except Fault HandleResult × Run σ

/-- A call returns. -/
def Run.returns (run : Run σ) (result : HandleResult) : Outcome σ := (.ok result, run)

/-- What handling the session returns and leaves. -/
def Run.after (run : Run σ) : Except Fault (HandleResult × Session σ) → Outcome σ
  | .error fault => (.error fault, run)
  | .ok (result, session) => (.ok result, run.withSession session)

/-- `*(from + pos)`. -/
def readAt (ints : MtpBuffer) (pos : ℕ) : Except Fault UInt32 :=
  match ints[pos]? with
  | none => .error .outOfBounds
  | some i => .ok i

/-! ## A response -/

/-- What is done with a response. -/
def handleResponse (reqMsgId : ℕ) (typeId : UInt32) (response : MtpBuffer) (info : OuterInfo)
    (session : Session σ) : HandleResult × Session σ :=
  if typeId = mtpcRpcError ∧ env.isDestroyedTemporaryKeyError response then
    (.destroyTemporaryKey, session)
  else
    let session := if typeId = mtpcRpcError then session else env.notifyConnectionInited session
    let bindResult := env.handleBindResponse reqMsgId response
      (env.requestsAcked [reqMsgId] true session)
    if bindResult.1 ≠ .ignored then bindResult
    else
      let requestId := env.wasSent bindResult.2 reqMsgId
      (.success, if requestId ≠ 0 ∧ requestId ≠ -1 then
        bindResult.2.received ⟨response, info.outerMsgId, requestId⟩ else bindResult.2)

/-- `case mtpc_rpc_result`. -/
def handleRpcResult (ints : MtpBuffer) (info : OuterInfo) (gzipDepth : ℕ) (run : Run σ) :
    Outcome σ :=
  if ints.length < 3 then run.returns .parseError
  else match env.readers.long.read ints.tail with
    | none => run.returns .parseError
    | some (reqMsgId, rest) =>
      let fixed := fixBadTime env [reqMsgId] info run.session
      let run := run.withSession fixed.2
      if fixed.1 = false then run.returns .ignored
      else match readAt rest 0 with
        | .error fault => (.error fault, run)
        | .ok typeId =>
          if typeId = mtpcGzipPacked then
            if kMaxGzipNesting ≤ gzipDepth then run.returns .restartConnection
            else
              let unpacked := ungzip env.readers.string env.zlib rest.tail run.unpackedBudget
              let run := run.wrote unpacked.2
              match unpacked.1 with
              | [] => run.returns .restartConnection
              | typeId :: response =>
                let run := run.spend (typeId :: response)
                run.after (.ok (handleResponse env reqMsgId typeId (typeId :: response) info
                  run.session))
          else run.after (.ok (handleResponse env reqMsgId typeId rest info run.session))

/-! ## Messages in messages -/

/-- The start of a message in a container, and what follows it there. -/
structure Header (messages : MtpBuffer) where
  msgId : ℕ
  needAck : Bool
  ints : ℕ
  body : MtpBuffer
  within : body <:+ messages

/-- The id, the number and the length of a message in a container. -/
def readHeader (readers : Readers) (messages : MtpBuffer) :
    Except Fault (Except HandleResult (Header messages)) :=
  if messages.length ≤ 4 then .ok (.error .parseError)
  else match subspan messages 0 4 with
    | .error fault => .error fault
    | .ok header => .ok <|
      match readers.long.read header with
      | none => .error .parseError
      | some (inMsgId, rest) =>
        if inMsgId % 4 ≠ 1 ∧ inMsgId % 4 ≠ 3 then .error .restartConnection
        else match readers.int.read rest with
          | none => .error .parseError
          | some (inSeqNo, rest) =>
            match readers.int.read rest with
            | none => .error .parseError
            | some (bytes, rest) =>
              if bytes % 4 ≠ 0 ∨ bytes < 4 then .error .restartConnection
              else
                .ok ⟨inMsgId, inSeqNo % 2 = 1, (bytes / 4).toNat,
                  messages.drop (4 - rest.length), List.drop_suffix _ _⟩

theorem Header.length_drop_le {messages : MtpBuffer} (header : Header messages) :
    (header.body.drop header.ints).length ≤ messages.length :=
  ((List.drop_suffix _ _).trans header.within).length_le

theorem Header.length_inner_le {messages : MtpBuffer} (header : Header messages)
    {inner : MtpBuffer} (h : subspan header.body 0 header.ints = .ok inner) :
    inner.length ≤ messages.length := by
  obtain ⟨rfl, hfit⟩ := subspan_spec h
  rw [length_slice hfit]
  exact (Nat.le_of_add_left_le hfit).trans header.within.length_le

/-- What makes the recursion end: not more ints, and fewer messages. -/
theorem lex_of_le {a b c d : ℕ} (h : a ≤ b) (hcd : c < d) :
    Prod.Lex (· < ·) (· < ·) (a, c) (b, d) := by
  rcases h.lt_or_eq with hlt | rfl
  · exact .left _ _ hlt
  · exact .right _ hcd

/-- `_ackRequestData.push_back`, for a message that needs it. -/
def Session.ackRequest (session : Session σ) (msgId : ℕ) (needAck : Bool) : Session σ :=
  if needAck then { session with ackRequestData := session.ackRequestData ++ [msgId] } else session

/-- `_receivedMessageIds.registerMsgId`. -/
def Session.register (session : Session σ) (msgId : ℕ) (needAck : Bool) :
    ReceivedIdsManager.Result × Session σ :=
  let registered := session.receivedMessageIds.registerMsgId msgId needAck
  (registered.2, { session with receivedMessageIds := registered.1 })

mutual

/-- `handleOneReceived`; `level` counts the calls it lies in. -/
def handleOneReceived (ints : MtpBuffer) (info : OuterInfo) (gzipDepth level : ℕ)
    (run : Run σ) : Outcome σ :=
  let run := run.enter ints info gzipDepth level
  match ints with
  | [] => (.error .assertion, run)
  | typeId :: rest =>
    match Cons.ofTypeId typeId with
    | .gzipPacked =>
      if kMaxGzipNesting ≤ gzipDepth then run.returns .restartConnection
      else
        let response := ungzip env.readers.string env.zlib rest run.unpackedBudget
        let run := run.wrote response.2
        if response.1 = [] then run.returns .restartConnection
        else handleOneReceived response.1 info (gzipDepth + 1) (level + 1) (run.spend response.1)
    | .msgContainer =>
      match rest with
      | [] => run.returns .parseError
      | msgsCount :: messages => handleContained messages msgsCount.toNat info gzipDepth level run
    | .rpcResult => handleRpcResult env (typeId :: rest) info gzipDepth run
    | cons => run.after (handlePlain env cons (typeId :: rest) info run.session)
  termination_by (kMaxGzipNesting - gzipDepth, ints.length, 0)

/-- The loop over the messages of a container. -/
def handleContained (messages : MtpBuffer) (msgsCount : ℕ) (info : OuterInfo)
    (gzipDepth level : ℕ) (run : Run σ) : Outcome σ :=
  match msgsCount with
  | 0 => run.returns .success
  | msgsCount + 1 =>
    match readHeader env.readers messages with
    | .error fault => (.error fault, run)
    | .ok (.error result) => run.returns result
    | .ok (.ok header) =>
      let session := run.session.ackRequest header.msgId header.needAck
      if header.body.length < header.ints then (run.withSession session).returns .parseError
      else match _hinner : subspan header.body 0 header.ints with
        | .error fault => (.error fault, run.withSession session)
        | .ok inner =>
          let registered := session.register header.msgId header.needAck
          let run := run.withSession registered.2
          match registered.1 with
          | .tooOld => run.returns .resetSession
          | .duplicate =>
            handleContained (header.body.drop header.ints) msgsCount info gzipDepth level run
          | .success =>
            match handleOneReceived inner info gzipDepth (level + 1) run with
            | (.ok .success, run) =>
              handleContained (header.body.drop header.ints) msgsCount
                { info with badTime := false } gzipDepth level run
            | outcome => outcome
  termination_by (kMaxGzipNesting - gzipDepth, messages.length, msgsCount + 1)
  decreasing_by
    · exact .right _ (lex_of_le header.length_drop_le (Nat.lt_succ_self _))
    · exact .right _ (lex_of_le (header.length_inner_le ‹_›) (Nat.zero_lt_succ _))
    · exact .right _ (lex_of_le header.length_drop_le (Nat.lt_succ_self _))

end

/-! ## What one call does

A call may fail a contract, return, unpack a message and handle it, or run over the messages of a
container; `handled_rule` is the induction over these cases. -/

variable {env}

/-- The start of a message is read within the container. -/
theorem readHeader_ok (readers : Readers) (messages : MtpBuffer) :
    ∃ header, readHeader readers messages = .ok header := by
  rw [readHeader]
  split_ifs with hlength
  · exact ⟨_, rfl⟩
  · rw [subspan_ok (by omega)]
    exact ⟨_, rfl⟩

/-- The state of a request is read from what was sent, which is longer than its header. -/
theorem handleMsgsStateInfo_fault (ints : MtpBuffer) (info : OuterInfo) (session : Session σ)
    {fault : Fault} (h : handleMsgsStateInfo env ints info session = .error fault) :
    fault = .assertion := by
  rw [handleMsgsStateInfo] at h
  split at h
  · exact nomatch h
  · split at h
    · exact nomatch h
    · rename_i originalRequest hfind
      by_cases hsize : 8 < originalRequest.length
      · rw [expects_ok hsize] at h
        simp only [ok_bind] at h
        split at h
        · exact nomatch h
        · exact nomatch h
      · rw [expects, if_neg hsize] at h
        exact (Except.error.inj h).symm

/-- The ints that were read are within the message. -/
theorem handleNewSessionCreated_ok (ints : MtpBuffer) (info : OuterInfo) (session : Session σ) :
    ∃ handled, handleNewSessionCreated env ints info session = .ok handled := by
  rw [handleNewSessionCreated]
  split
  · exact ⟨_, rfl⟩
  · dsimp only
    rw [subspan_ok (by omega)]
    split
    · exact ⟨_, rfl⟩
    · exact ⟨_, rfl⟩

/-- **A constructor that holds no message reads only within its ints.** -/
theorem handlePlain_fault (cons : Cons) (ints : MtpBuffer) (info : OuterInfo)
    (session : Session σ) {fault : Fault}
    (h : handlePlain env cons ints info session = .error fault) : fault = .assertion := by
  rw [handlePlain.eq_def] at h
  split at h
  case h_4 => exact handleMsgsStateInfo_fault ints info session h
  case h_8 =>
    obtain ⟨handled, hok⟩ := handleNewSessionCreated_ok ints info session
    exact nomatch hok.symm.trans h
  all_goals exact nomatch h

/-- What is done with a message of a container that lies in it. -/
theorem handleContained_succ {messages inner : MtpBuffer} {msgsCount : ℕ} {info : OuterInfo}
    {gzipDepth level : ℕ} {run : Run σ} {header : Header messages}
    (hheader : readHeader env.readers messages = .ok (.ok header))
    (hinner : subspan header.body 0 header.ints = .ok inner) :
    handleContained env messages (msgsCount + 1) info gzipDepth level run =
      let registered := (run.session.ackRequest header.msgId header.needAck).register header.msgId
        header.needAck
      match registered.1 with
      | .tooOld => (run.withSession registered.2).returns .resetSession
      | .duplicate => handleContained env (header.body.drop header.ints) msgsCount info gzipDepth
          level (run.withSession registered.2)
      | .success =>
        match handleOneReceived env inner info gzipDepth (level + 1)
          (run.withSession registered.2) with
        | (.ok .success, run) => handleContained env (header.body.drop header.ints) msgsCount
            { info with badTime := false } gzipDepth level run
        | outcome => outcome := by
  have hfit := (subspan_spec hinner).2
  rw [handleContained.eq_def]
  simp only [hheader]
  rw [if_neg (by omega)]
  split
  · rename_i fault hfault
    exact nomatch hinner.symm.trans hfault
  · rename_i inner' hinner'
    obtain rfl := Except.ok.inj (hinner.symm.trans hinner')
    rfl

/-- **Induction over the calls.**  `P` speaks about a call and its outcome, `Q` about what is left of
a container and the outcome of the loop over it. -/
theorem handled_rule
    {P Q : MtpBuffer → OuterInfo → ℕ → ℕ → Run σ → Outcome σ → Prop}
    (fails : ∀ ints info gzipDepth level run,
      (∀ typeId rest, ints = typeId :: rest → Cons.ofTypeId typeId ≠ .rpcResult) →
      P ints info gzipDepth level run (.error .assertion, run.enter ints info gzipDepth level))
    (returns : ∀ typeId rest info gzipDepth level run session result,
      Cons.ofTypeId typeId ≠ .rpcResult →
      P (typeId :: rest) info gzipDepth level run
        (((run.enter (typeId :: rest) info gzipDepth level).withSession session).returns result))
    (refuses : ∀ typeId rest info gzipDepth level run, Cons.ofTypeId typeId = .gzipPacked →
      P (typeId :: rest) info gzipDepth level run
        (((run.enter (typeId :: rest) info gzipDepth level).wrote
          (ungzip env.readers.string env.zlib rest run.unpackedBudget).2).returns
            .restartConnection))
    (unpacks : ∀ typeId rest info gzipDepth level run outcome,
      Cons.ofTypeId typeId = .gzipPacked → gzipDepth < kMaxGzipNesting →
      (ungzip env.readers.string env.zlib rest run.unpackedBudget).1 ≠ [] →
      P (ungzip env.readers.string env.zlib rest run.unpackedBudget).1 info (gzipDepth + 1)
        (level + 1) (((run.enter (typeId :: rest) info gzipDepth level).wrote
          (ungzip env.readers.string env.zlib rest run.unpackedBudget).2).spend
            (ungzip env.readers.string env.zlib rest run.unpackedBudget).1) outcome →
      P (typeId :: rest) info gzipDepth level run outcome)
    (contains : ∀ typeId msgsCount messages info gzipDepth level run outcome,
      Cons.ofTypeId typeId = .msgContainer →
      Q messages info gzipDepth level
        (run.enter (typeId :: msgsCount :: messages) info gzipDepth level) outcome →
      P (typeId :: msgsCount :: messages) info gzipDepth level run outcome)
    (result : ∀ typeId rest info gzipDepth level run, Cons.ofTypeId typeId = .rpcResult →
      P (typeId :: rest) info gzipDepth level run (handleRpcResult env (typeId :: rest) info gzipDepth
        (run.enter (typeId :: rest) info gzipDepth level)))
    (ends : ∀ messages info gzipDepth level run session result,
      Q messages info gzipDepth level run ((run.withSession session).returns result))
    (skips : ∀ messages rest info gzipDepth level run session outcome,
      rest.length ≤ messages.length →
      Q rest info gzipDepth level (run.withSession session) outcome →
      Q messages info gzipDepth level run outcome)
    (stops : ∀ messages inner info gzipDepth level run session outcome,
      inner.length ≤ messages.length →
      P inner info gzipDepth (level + 1) (run.withSession session) outcome →
      Q messages info gzipDepth level run outcome)
    (goes : ∀ messages inner rest info gzipDepth level run session next outcome,
      inner.length ≤ messages.length → rest.length ≤ messages.length →
      P inner info gzipDepth (level + 1) (run.withSession session) (.ok .success, next) →
      Q rest { info with badTime := false } gzipDepth level next outcome →
      Q messages info gzipDepth level run outcome)
    (ints : MtpBuffer) (info : OuterInfo) (gzipDepth level : ℕ) (run : Run σ) :
    P ints info gzipDepth level run (handleOneReceived env ints info gzipDepth level run) := by
  refine handleOneReceived.induct env
    (fun ints info gzipDepth level run =>
      P ints info gzipDepth level run (handleOneReceived env ints info gzipDepth level run))
    (fun messages msgsCount info gzipDepth level run =>
      Q messages info gzipDepth level run
        (handleContained env messages msgsCount info gzipDepth level run))
    ?_ ?_ ?_ ?_ ?_ ?_ ?_ ?_ ?_ ?_ ?_ ?_ ?_ ?_ ?_ ?_ ?_ ints info gzipDepth level run
  · intro info gzipDepth level run
    rw [handleOneReceived.eq_def]
    exact fails _ _ _ _ _ fun typeId rest h => nomatch h
  · intro info gzipDepth level run typeId rest hcons hdepth
    rw [handleOneReceived.eq_def]
    simp only [hcons, if_pos hdepth]
    exact returns _ _ _ _ _ _ run.session _ (hcons ▸ nofun)
  · intro info gzipDepth level run typeId rest hcons hdepth entered response hnil
    rw [handleOneReceived.eq_def]
    simp only [hcons, if_neg hdepth]
    rw [if_pos hnil]
    exact refuses _ _ _ _ _ _ hcons
  · intro info gzipDepth level run typeId rest hcons hdepth entered response wrote hne ih
    rw [handleOneReceived.eq_def]
    simp only [hcons, if_neg hdepth]
    rw [if_neg hne]
    exact unpacks _ _ _ _ _ _ _ hcons (not_le.mp hdepth) hne ih
  · intro info gzipDepth level run typeId hcons
    rw [handleOneReceived.eq_def]
    simp only [hcons]
    exact returns _ _ _ _ _ _ run.session _ (hcons ▸ nofun)
  · intro info gzipDepth level run typeId hcons msgsCount messages entered ih
    rw [handleOneReceived.eq_def]
    simp only [hcons]
    exact contains _ _ _ _ _ _ _ _ hcons ih
  · intro info gzipDepth level run typeId rest hcons
    rw [handleOneReceived.eq_def]
    simp only [hcons]
    exact result _ _ _ _ _ _ hcons
  · intro info gzipDepth level run typeId rest hgzip hcontainer hresult
    have hplain : handleOneReceived env (typeId :: rest) info gzipDepth level run =
        (run.enter (typeId :: rest) info gzipDepth level).after
          (handlePlain env (Cons.ofTypeId typeId) (typeId :: rest) info run.session) := by
      rw [handleOneReceived.eq_def]
      dsimp only
      split
      · exact absurd ‹_› hgzip
      · exact absurd ‹_› hcontainer
      · exact absurd ‹_› hresult
      · rfl
    rw [hplain]
    cases handled : handlePlain env (Cons.ofTypeId typeId) (typeId :: rest) info run.session with
    | error fault =>
      rw [handlePlain_fault _ _ _ _ handled]
      exact fails _ _ _ _ _ fun typeId' rest' h => (List.cons.inj h).1 ▸ hresult
    | ok answer => exact returns _ _ _ _ _ _ answer.2 _ hresult
  · intro messages info gzipDepth level run
    rw [handleContained]
    exact ends _ _ _ _ _ run.session _
  · intro messages info gzipDepth level run msgsCount fault hheader
    obtain ⟨header, hok⟩ := readHeader_ok env.readers messages
    exact nomatch hok.symm.trans hheader
  · intro messages info gzipDepth level run msgsCount result hheader
    rw [handleContained, hheader]
    exact ends _ _ _ _ _ run.session _
  · intro messages info gzipDepth level run msgsCount header hheader hlength
    rw [handleContained, hheader]
    dsimp only
    rw [if_pos hlength]
    exact ends _ _ _ _ _ _ _
  · intro messages info gzipDepth level run msgsCount header hheader hlength fault hinner
    rw [subspan_ok (by omega)] at hinner
    exact nomatch hinner
  · intro messages info gzipDepth level run msgsCount header hheader session hlength inner hinner
      registered hold
    rw [handleContained_succ hheader hinner]
    simp only [session, registered] at hold
    simp only [hold]
    exact ends _ _ _ _ _ _ _
  · intro messages info gzipDepth level run msgsCount header hheader session hlength inner hinner
      registered again hduplicate ih
    rw [handleContained_succ hheader hinner]
    simp only [session, registered] at hduplicate
    simp only [hduplicate]
    exact skips _ _ _ _ _ _ _ _ header.length_drop_le ih
  · intro messages info gzipDepth level run msgsCount header hheader session hlength inner hinner
      registered again hsuccess next hnext ih ih'
    rw [handleContained_succ hheader hinner]
    simp only [session, registered] at hsuccess
    simp only [again, session, registered] at hnext
    simp only [hsuccess, hnext]
    exact goes _ inner _ _ _ _ _ registered.2 next _ (header.length_inner_le hinner)
      header.length_drop_le (hnext ▸ ih) ih'
  · intro messages info gzipDepth level run msgsCount header hheader session hlength inner hinner
      registered again hsuccess hnext ih
    rw [handleContained_succ hheader hinner]
    simp only [session, registered] at hsuccess
    simp only [hsuccess]
    refine stops _ inner _ _ _ _ registered.2 _ (header.length_inner_le hinner) ?_
    split
    · rename_i next hnext'
      exact absurd hnext' (hnext next)
    · exact ih

end Mtproto

end Yunogram
