import Mathlib
import Yunogram.Machinery.FlatMap

/-!
# Data/Histories — the requests of the chats, one behind another

For each chat the histories keep the requests in flight, the requests for messages that wait until
no deletion is in flight, how far the chat is to be read and how far a request in flight reads it.
A request is remembered together with its generator, so that it can be sent once more.  The dialog
entries asked for wait in one map until the next postponed call, and in another one until they are
applied.

What is around them is kept beside: the requests that the server was sent and has not answered, how
far each chat is read, the clock, the timer and the setting of the ghost mode.  A chat answers what
only the loaded messages tell in the arguments of a call.
-/

open Machinery

namespace Yunogram

/-! ## The state of a chat -/

/-- `MsgId`. -/
abbrev Histories.MsgId := ℤ

/-- `ServerMaxMsgId`. -/
def Histories.serverMaxMsgId : MsgId := 72057594037927936

/-- `IsServerMsgId`. -/
def Histories.IsServerMsgId (id : MsgId) : Bool := 0 < id && id < serverMaxMsgId

/-- `Histories::RequestType`. -/
inductive Histories.RequestType
  | none
  | history
  | readInbox
  | delete
  | send
  deriving DecidableEq

/-- What makes the request, once more if need be: the one of `sendReadRequest`, or one that was
passed in and does nothing here but call `finish` when the server has answered. -/
inductive Histories.Generator
  | readInbox (tillId : MsgId)
  | passed
  deriving DecidableEq

/-- `Histories::SentRequest`. -/
structure Histories.SentRequest where
  generator : Generator
  id : ℕ
  type : RequestType
  deriving DecidableEq

/-- `Histories::State`; what is postponed is a generator. -/
structure Histories.State where
  postponed : FlatMap ℕ Generator := FlatMap.empty
  sent : FlatMap ℕ SentRequest := FlatMap.empty
  willReadTill : MsgId := 0
  sentReadTill : MsgId := 0
  willReadWhen : ℕ := 0
  sentReadDone : Bool := false
  postponedRequestEntry : Bool := false

/-- A chat, as far as the histories look at it: `History::_inboxReadBefore`,
`History::_unreadCount` and `ChannelData::isCommunity`. -/
structure Histories.History where
  inboxReadBefore : Option MsgId := none
  unreadCount : Option ℤ := none
  isCommunity : Bool := false

/-- A request that was sent and is neither answered nor cancelled; `finish` of its generator is
`checkPostponed` of the chat and of the number it has among the requests of the histories. -/
structure Histories.ApiRequest (Peer : Type) where
  requestId : ℕ
  history : Peer
  id : ℕ
  generator : Generator
  deriving DecidableEq

/-- An assertion of the source. -/
inductive Histories.Failure
  /-- `Expects` of `readInboxTill`. -/
  | readInboxTill
  /-- `Expects` of `sendReadRequest`. -/
  | sendReadRequest
  /-- `Assert` in the handler of an answered read request. -/
  | readFinished
  /-- One of the two `Assert` of `finishSentRequest`. -/
  | finishSentRequest
  deriving DecidableEq

/-- A callback given to `requestDialogEntry`. -/
abbrev Histories.Callback := ℕ

/-- `Histories`, and what is around them: `requested` are the requests of chats that were ever made
and `live` those in flight, `entries` the requests for dialog entries in flight, `finalizing` the
chats whose entries have come and are still to be looked at, `applying` those between the callbacks
of `dialogEntryApplied` and its end, `called` the callbacks that were called, and `postponedCalls`
how often `sendDialogRequests` is still to be called. -/
structure Histories (Peer : Type) [LinearOrder Peer] where
  states : FlatMap Peer Histories.State
  historyByRequest : FlatMap ℕ Peer
  requestAutoincrement : ℕ
  readRequestsTimer : Option ℕ
  dialogRequests : FlatMap Peer (List Histories.Callback)
  dialogRequestsPending : FlatMap Peer (List Histories.Callback)
  chats : Peer → Histories.History
  nextRequestId : ℕ
  requested : List (Histories.ApiRequest Peer)
  live : List (Histories.ApiRequest Peer)
  entries : FlatMap ℕ (List Peer)
  finalizing : List Peer
  applying : List Peer
  called : List Histories.Callback
  postponedCalls : ℕ
  sendReadMessages : Bool
  now : ℕ

namespace Histories

variable {Peer : Type} [LinearOrder Peer]

/-- The histories of a session that has just started, with chats as they were stored. -/
def start (chats : Peer → History) (sendReadMessages : Bool) : Histories Peer where
  states := FlatMap.empty
  historyByRequest := FlatMap.empty
  requestAutoincrement := 0
  readRequestsTimer := none
  dialogRequests := FlatMap.empty
  dialogRequestsPending := FlatMap.empty
  chats := chats
  nextRequestId := 1
  requested := []
  live := []
  entries := FlatMap.empty
  finalizing := []
  applying := []
  called := []
  postponedCalls := 0
  sendReadMessages := sendReadMessages
  now := 0

/-! ## Looking up and changing the state of a chat -/

/-- `Histories::lookup`. -/
def lookup (s : Histories Peer) (history : Peer) : Option State := s.states.find? history

/-- `_states[history]`. -/
def state (s : Histories Peer) (history : Peer) : State := (s.lookup history).getD {}

/-- What is written through the reference to the state of a chat. -/
def setState (s : Histories Peer) (history : Peer) (state : State) : Histories Peer :=
  { s with states := s.states.assign history state }

/-- What is called on a chat. -/
def setChat (s : Histories Peer) (history : Peer) (chat : History) : Histories Peer :=
  { s with chats := Function.update s.chats history chat }

/-- `Histories::postponeHistoryRequest`. -/
def State.postponeHistoryRequest (state : State) : Bool :=
  state.sent.entries.any fun (_, request) => request.type = .delete

/-- `Histories::postponeEntryRequest`. -/
def State.postponeEntryRequest (state : State) : Bool :=
  state.sent.entries.any fun (_, request) => request.type ≠ .history

/-- The condition of `Histories::checkEmptyState`. -/
def State.isEmpty (state : State) : Bool :=
  state.postponed.isEmpty
    && !state.postponedRequestEntry
    && state.sent.isEmpty
    && state.willReadTill = 0
    && state.sentReadTill = 0

/-- `Histories::checkEmptyState`. -/
def checkEmptyState (s : Histories Peer) (history : Peer) : Histories Peer :=
  if (s.lookup history).any State.isEmpty then { s with states := s.states.erase history } else s

/-! ## Dialog entries asked for -/

/-- `Histories::postponeRequestDialogEntries`. -/
def postponeRequestDialogEntries (s : Histories Peer) : Histories Peer :=
  if s.dialogRequestsPending.size > 1 then s
  else { s with postponedCalls := s.postponedCalls + 1 }

/-- `Histories::requestDialogEntry`. -/
def requestDialogEntry (s : Histories Peer) (history : Peer) (callback : Option Callback) :
    Histories Peer :=
  if (s.chats history).isCommunity then s
  else match s.dialogRequests.find? history with
    | some callbacks =>
      { s with dialogRequests := s.dialogRequests.assign history (callbacks ++ callback.toList) }
    | none =>
      match s.dialogRequestsPending.find? history with
      | some callbacks =>
        { s with
          dialogRequestsPending :=
            s.dialogRequestsPending.assign history (callbacks ++ callback.toList) }
      | none =>
        postponeRequestDialogEntries
          { s with
            dialogRequestsPending := s.dialogRequestsPending.emplace history callback.toList }

/-- A chat that waits for its entry keeps other requests from being answered first. -/
def postponesEntry (s : Histories Peer) (history : Peer) : Bool :=
  (s.lookup history).any State.postponeEntryRequest

/-- `Histories::sendDialogRequests`. -/
def sendDialogRequests (s : Histories Peer) : Histories Peer :=
  if s.dialogRequestsPending.isEmpty then s
  else
    let pending := s.dialogRequestsPending.entries
    let histories := s.dialogRequestsPending.keys.filter fun history => !s.postponesEntry history
    let postponed := s.dialogRequestsPending.keys.filter s.postponesEntry
    let s := postponed.foldl (fun s history =>
      s.setState history { s.state history with postponedRequestEntry := true }) s
    { s with
      dialogRequestsPending := FlatMap.empty
      dialogRequests := pending.foldl (fun map e => map.emplace e.1 e.2) s.dialogRequests
      entries := s.entries.emplace s.nextRequestId histories
      nextRequestId := s.nextRequestId + 1 }

/-- `Histories::dialogEntryApplied`, up to its last statement. -/
def dialogEntryApplied (s : Histories Peer) (history : Peer) : Histories Peer :=
  if (s.lookup history).any State.postponedRequestEntry then s
  else
    { s with
      called := s.called ++ (s.dialogRequestsPending.find? history).getD []
        ++ (s.dialogRequests.find? history).getD []
      dialogRequestsPending := s.dialogRequestsPending.erase history
      dialogRequests := s.dialogRequests.erase history
      applying := if (s.lookup history).isSome then history :: s.applying else s.applying }

/-! ## Sending and finishing requests -/

/-- A generator sends its request. -/
def generate (s : Histories Peer) (history : Peer) (id : ℕ) (generator : Generator) :
    Histories Peer :=
  { s with
    nextRequestId := s.nextRequestId + 1
    requested := s.requested ++ [⟨s.nextRequestId, history, id, generator⟩]
    live := s.live ++ [⟨s.nextRequestId, history, id, generator⟩] }

/-- `session().api().request(requestId).cancel()`. -/
def cancel (s : Histories Peer) (requestIds : List ℕ) : Histories Peer :=
  { s with live := s.live.filter fun request => request.requestId ∉ requestIds }

/-- A request was sent in a chat that waits for its entry. -/
def State.postponeEntry (state : State) (requested : Bool) : State :=
  if !state.postponedRequestEntry && state.postponeEntryRequest && requested then
    { state with postponedRequestEntry := true }
  else state

/-- The requests for messages that are to be sent again when nothing is deleted any more. -/
def State.resent (state : State) : List (ℕ × SentRequest) :=
  state.sent.entries.filter fun (_, request) => request.type = .history

/-- …and the state without them. -/
def State.resend (state : State) : State :=
  { state with
    postponed := state.resent.foldl (fun map e => map.emplace e.1 e.2.generator) state.postponed
    sent := state.sent.filter fun _ request => request.type ≠ .history }

/-- A request is given a number. -/
def assignId (s : Histories Peer) (history : Peer) : Histories Peer :=
  { s with
    requestAutoincrement := s.requestAutoincrement + 1
    historyByRequest := s.historyByRequest.emplace (s.requestAutoincrement + 1) history }

/-- The state after a request of `sendRequest` was sent. -/
def sentState (s : Histories Peer) (history : Peer) (type : RequestType) (generator : Generator)
    (id : ℕ) : State :=
  let state := s.state history
  { state with sent := state.sent.emplace id ⟨generator, s.nextRequestId, type⟩ }.postponeEntry
    (s.dialogRequests.contains history)

/-- What `sendRequest` does with a request that is not postponed. -/
def sendNow (s : Histories Peer) (history : Peer) (type : RequestType) (generator : Generator)
    (id : ℕ) : Histories Peer :=
  let state := s.sentState history type generator id
  let s := s.generate history id generator
  if state.postponeHistoryRequest then
    (s.setState history state.resend).cancel (state.resent.map (·.2.id))
  else s.setState history state

/-- `Histories::sendRequest`. -/
def sendRequest (s : Histories Peer) (history : Peer) (type : RequestType)
    (generator : Generator) : Histories Peer :=
  let state := s.state history
  let id := s.requestAutoincrement + 1
  let s := s.assignId history
  if type = .history && state.postponeHistoryRequest then
    s.setState history { state with postponed := state.postponed.emplace id generator }
  else s.sendNow history type generator id

/-- The postponed requests are sent, each with its generator. -/
def sendPostponed (s : Histories Peer) (history : Peer) : List (ℕ × Generator) → Histories Peer
  | [] => s
  | (id, generator) :: postponed =>
    let state := s.state history
    sendPostponed
      ((s.generate history id generator).setState history
        { state with sent := state.sent.emplace id ⟨generator, s.nextRequestId, .history⟩ })
      history postponed

/-- What `finishSentRequest` does when a state has postponed requests and deletes nothing. -/
def finishPostponed (s : Histories Peer) (history : Peer) : Histories Peer :=
  let state := s.state history
  if !state.postponed.isEmpty && !state.postponeHistoryRequest then
    (s.setState history { state with postponed := FlatMap.empty }).sendPostponed history
      state.postponed.entries
  else s

/-- The entry of a chat is to be asked for again. -/
def requeueEntry (s : Histories Peer) (history : Peer) (callbacks : List Callback) :
    Histories Peer :=
  let s := s.setState history { s.state history with postponedRequestEntry := false }
  postponeRequestDialogEntries
    { s with
      dialogRequestsPending := s.dialogRequestsPending.emplace history callbacks
      dialogRequests := s.dialogRequests.erase history }

/-- What `finishSentRequest` does when the entry of a chat was postponed. -/
def finishEntry (s : Histories Peer) (history : Peer) : Except Failure (Histories Peer) :=
  let state := s.state history
  if state.postponedRequestEntry && !state.postponeEntryRequest then
    match s.dialogRequests.find? history with
    | none => .error .finishSentRequest
    | some callbacks =>
      if s.dialogRequestsPending.contains history then .error .finishSentRequest
      else .ok (s.requeueEntry history callbacks)
  else .ok s

/-- What `finishSentRequest` does with the request itself. -/
def removeSent (s : Histories Peer) (history : Peer) (state : State) (id : ℕ) : Histories Peer :=
  let s := { s with historyByRequest := s.historyByRequest.erase id }
  match state.sent.find? id with
  | some request =>
    (s.setState history { state with sent := state.sent.erase id }).cancel [request.id]
  | none => s

/-- `Histories::finishSentRequest`. -/
def finishSentRequest (s : Histories Peer) (history : Peer) (state : State) (id : ℕ) :
    Except Failure (Histories Peer) :=
  (((s.removeSent history state id).finishPostponed history).finishEntry history).map
    fun s => s.checkEmptyState history

/-- `Histories::checkPostponed`. -/
def checkPostponed (s : Histories Peer) (history : Peer) (id : ℕ) :
    Except Failure (Histories Peer) :=
  match s.lookup history with
  | some state => s.finishSentRequest history state id
  | none => .ok s

/-- `Histories::cancelRequest`. -/
def cancelRequest (s : Histories Peer) (id : ℕ) : Except Failure (Histories Peer) :=
  match s.historyByRequest.find? id with
  | none => .ok s
  | some history =>
    let s := { s with historyByRequest := s.historyByRequest.erase id }
    match s.lookup history with
    | none => .ok s
    | some state =>
      let state := { state with postponed := state.postponed.erase id }
      (s.setState history state).finishSentRequest history state id

end Histories

end Yunogram
