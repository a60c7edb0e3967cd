import Yunogram.Data.Histories

/-!
# Data/HistoriesRead — how far chats are read, and when the server is told

`readInboxTill` notes in the state of a chat how far it will be read, and has it sent at once or
when the timer fires.  `sendReadRequests` sends what is due; in ghost mode it forgets all states
instead.  The handler of an answered request takes back what it sent.

`Event` lists what happens to the histories, from outside or as an answer; between the callbacks of
`dialogEntryApplied` and its end anything may happen, so its end is an event of its own.
-/

open Machinery

namespace Yunogram

/-- `kReadRequestTimeout`, in milliseconds. -/
def Histories.kReadRequestTimeout : ℕ := 3000

/-- What a chat tells in a call of `readInboxTill`: `History::trackUnreadMessages`,
`History::countStillUnreadLocal` of the till id, `History::lastServerMessage`,
`History::msgIdForRead`, and whether the last message is loaded and outgoing. -/
structure Histories.Facts where
  trackUnreadMessages : Bool
  stillUnread : Option ℤ
  lastServerMessage : Option Histories.MsgId
  msgIdForRead : Histories.MsgId
  lastOutgoing : Bool

/-! ## A chat -/

namespace Histories.History

/-- `History::readInboxTillNeedsRequest`. -/
def readInboxTillNeedsRequest (chat : History) (tillId : MsgId) : Bool :=
  IsServerMsgId tillId && chat.inboxReadBefore.getD 1 ≤ tillId

/-- `History::unreadCountRefreshNeeded`. -/
def unreadCountRefreshNeeded (chat : History) (readTillId : MsgId) : Bool :=
  !chat.unreadCount.isSome || chat.inboxReadBefore.getD 0 < readTillId + 1

/-- `History::setInboxReadTill`. -/
def setInboxReadTill (chat : History) (upTo : MsgId) : History :=
  match chat.inboxReadBefore with
  | some before => { chat with inboxReadBefore := some (max before (upTo + 1)) }
  | none => { chat with inboxReadBefore := some (upTo + 1) }

/-- `History::setUnreadCount`. -/
def setUnreadCount (chat : History) (facts : Facts) (newUnreadCount : ℤ) : History :=
  if chat.unreadCount = some newUnreadCount then chat
  else
    let chat := { chat with unreadCount := some newUnreadCount }
    if newUnreadCount = 1 ∧ !facts.lastOutgoing then
      if facts.msgIdForRead ≠ 0 then chat.setInboxReadTill (facts.msgIdForRead - 1) else chat
    else if newUnreadCount = 0 then
      if facts.msgIdForRead ≠ 0 then chat.setInboxReadTill facts.msgIdForRead else chat
    else chat

/-- What `readInboxTill` does with the chat at its end, whichever way it goes. -/
def syncGuard (chat : History) (facts : Facts) (tillId : MsgId) : History :=
  if 0 < chat.unreadCount.getD 0 ∧ facts.lastServerMessage = some tillId then
    chat.setUnreadCount facts 0
  else chat

end Histories.History

namespace Histories

variable {Peer : Type} [LinearOrder Peer]

/-! ## Sending what is due -/

/-- `Histories::sendReadRequest`. -/
def sendReadRequest (s : Histories Peer) (history : Peer) : Except Failure (Histories Peer) :=
  let state := s.state history
  if state.sentReadTill < state.willReadTill then
    let tillId := state.willReadTill
    .ok ((s.setState history
      { state with
        sentReadTill := tillId
        willReadTill := 0
        willReadWhen := 0
        sentReadDone := false }).sendRequest history .readInbox (.readInbox tillId))
  else .error .sendReadRequest

/-- The loop of `sendReadRequests`, with the time of the next one to be sent. -/
def sendDue (s : Histories Peer) (next : Option ℕ) :
    List Peer → Except Failure (Histories Peer × Option ℕ)
  | [] => .ok (s, next)
  | history :: histories =>
    let state := s.state history
    if state.willReadTill = 0 then s.sendDue next histories
    else if state.willReadWhen ≤ s.now then
      s.sendReadRequest history >>= fun s => s.sendDue next histories
    else if next.all (state.willReadWhen < ·) then
      s.sendDue (some state.willReadWhen) histories
    else s.sendDue next histories

/-- `Histories::sendReadRequests`. -/
def sendReadRequests (s : Histories Peer) : Except Failure (Histories Peer) :=
  if !s.sendReadMessages then .ok { s with states := FlatMap.empty }
  else if s.states.isEmpty then .ok s
  else (s.sendDue none s.states.keys).map fun (s, next) => { s with readRequestsTimer := next }

/-- `Histories::sendPendingReadInbox`. -/
def sendPendingReadInbox (s : Histories Peer) (history : Peer) :
    Except Failure (Histories Peer) :=
  match s.lookup history with
  | some state =>
    if state.willReadTill ≠ 0 ∧ state.willReadWhen ≠ 0 then
      (s.setState history { state with willReadWhen := 0 }).sendReadRequests
    else .ok s
  | none => .ok s

/-! ## Reading a chat -/

/-- The last lines of `readInboxTill`. -/
def markRead (s : Histories Peer) (history : Peer) (tillId : MsgId) (facts : Facts)
    (stillUnread : ℤ) : Histories Peer :=
  s.setChat history (((s.chats history).setInboxReadTill tillId).setUnreadCount facts stillUnread)

/-- `readInboxTill` puts the request off until the timer fires. -/
def postponeRead (s : Histories Peer) (history : Peer) (state : State) : Histories Peer :=
  if state.willReadWhen = 0 then
    { s.setState history { state with willReadWhen := s.now + kReadRequestTimeout } with
      readRequestsTimer := s.readRequestsTimer.or (some (s.now + kReadRequestTimeout)) }
  else s.setState history state

/-- `readInboxTill` from `state.willReadTill = tillId` on. -/
def acceptTill (s : Histories Peer) (history : Peer) (tillId : MsgId) (force : Bool)
    (facts : Facts) : Except Failure (Histories Peer) :=
  let state := { s.state history with willReadTill := tillId }
  match facts.stillUnread with
  | none => (s.setState history { state with willReadWhen := 0 }).sendReadRequests
  | some stillUnread =>
    if force || stillUnread = 0 then
      (s.setState history { state with willReadWhen := 0 }).sendReadRequests.map fun s =>
        s.markRead history tillId facts stillUnread
    else .ok ((s.postponeRead history state).markRead history tillId facts stillUnread)

/-- `readInboxTill` comes to accept the till id: none of its returns is taken. -/
def accepts (s : Histories Peer) (history : Peer) (tillId : MsgId) (force : Bool)
    (facts : Facts) : Bool :=
  let chat := s.chats history
  let needsRequest := chat.readInboxTillNeedsRequest tillId
  let maybeState := s.lookup history
  (needsRequest || force)
    && facts.trackUnreadMessages
    && !maybeState.any (fun state => tillId ≤ state.sentReadTill)
    && !maybeState.any (fun state => tillId ≤ state.willReadTill)
    && (needsRequest || maybeState.any (fun state => state.willReadTill ≠ 0))
    && (force || !(chat.unreadCount.isSome && facts.stillUnread = chat.unreadCount))

/-- `Histories::readInboxTill`, without what is done at its end whichever way it goes. -/
def readInboxTillBody (s : Histories Peer) (history : Peer) (tillId : MsgId) (force : Bool)
    (facts : Facts) : Except Failure (Histories Peer) :=
  let chat := s.chats history
  let needsRequest := chat.readInboxTillNeedsRequest tillId
  if !needsRequest && !force then .ok s
  else if !facts.trackUnreadMessages then .ok s
  else
    let maybeState := s.lookup history
    if maybeState.any (fun state => tillId ≤ state.sentReadTill) then .ok s
    else if maybeState.any (fun state => tillId ≤ state.willReadTill) then
      if force then s.sendPendingReadInbox history else .ok s
    else if !needsRequest && !maybeState.any (fun state => state.willReadTill ≠ 0) then .ok s
    else if !force && chat.unreadCount.isSome && facts.stillUnread = chat.unreadCount then
      .ok (s.setChat history (chat.setInboxReadTill tillId))
    else s.acceptTill history tillId force facts

/-- `Histories::readInboxTill`. -/
def readInboxTill (s : Histories Peer) (history : Peer) (tillId : MsgId) (force : Bool)
    (facts : Facts) : Except Failure (Histories Peer) :=
  if IsServerMsgId tillId || (tillId = 0 && !force) then
    (s.readInboxTillBody history tillId force facts).map fun s =>
      s.setChat history ((s.chats history).syncGuard facts tillId)
  else .error .readInboxTill

/-! ## Answers -/

/-- What the handler of an answered read request does with the state. -/
def readDone (s : Histories Peer) (history : Peer) (tillId : MsgId) :
    Except Failure (Histories Peer) :=
  let state := s.state history
  if state.sentReadTill = tillId then
    if (s.chats history).unreadCountRefreshNeeded tillId then
      .ok ((s.setState history { state with sentReadDone := true }).requestDialogEntry history none)
    else .ok (s.setState history { state with sentReadDone := true, sentReadTill := 0 })
  else if state.sentReadTill = 0 ∨ tillId < state.sentReadTill then
    .ok (s.setState history state)
  else .error .readFinished

/-- The handler of an answered read request. -/
def readFinished (s : Histories Peer) (history : Peer) (id : ℕ) (tillId : MsgId) :
    Except Failure (Histories Peer) :=
  s.readDone history tillId >>= fun s =>
    s.sendReadRequests >>= fun s => s.checkPostponed history id

/-- A request in flight is answered, or fails. -/
def answered (s : Histories Peer) (requestId : ℕ) : Except Failure (Histories Peer) :=
  match s.live.find? fun request => request.requestId = requestId with
  | none => .ok s
  | some request =>
    let s := s.cancel [requestId]
    match request.generator with
    | .readInbox tillId => s.readFinished request.history request.id tillId
    | .passed => s.checkPostponed request.history request.id

/-- The last statement of `dialogEntryApplied`. -/
def dialogEntryReturns (s : Histories Peer) : Histories Peer :=
  match s.applying with
  | [] => s
  | history :: applying =>
    let s := { s with applying := applying }
    match s.lookup history with
    | none => s
    | some state =>
      if state.sentReadTill ≠ 0 ∧ state.sentReadDone then
        ((s.setChat history ((s.chats history).setInboxReadTill state.sentReadTill)).setState
          history { state with sentReadTill := 0 }).checkEmptyState history
      else s

/-- The next chat whose entry has come. -/
def finalizeNext (s : Histories Peer) : Histories Peer :=
  match s.finalizing with
  | [] => s
  | history :: finalizing =>
    let s := { s with finalizing := finalizing }
    if (s.lookup history).any State.postponedRequestEntry then s else s.dialogEntryApplied history

/-! ## Events -/

/-- What happens to the histories. -/
inductive Event (Peer : Type)
  | readInboxTill (history : Peer) (tillId : MsgId) (force : Bool) (facts : Facts)
  | sendPendingReadInbox (history : Peer)
  /-- The timer fires, when it is due. -/
  | readRequestsTimer
  /-- A request of the messages, a deletion or a sending. -/
  | sendRequest (history : Peer) (type : RequestType)
  | cancelRequest (id : ℕ)
  /-- A request in flight is answered, or fails. -/
  | answered (requestId : ℕ)
  | requestDialogEntry (history : Peer) (callback : Option Callback)
  /-- The postponed call. -/
  | sendDialogRequests
  /-- Dialog entries are answered, or fail. -/
  | peerDialogs (requestId : ℕ)
  | finalizeNext
  | dialogEntryApplied (history : Peer)
  | dialogEntryReturns
  /-- The ghost mode is switched. -/
  | setSendReadMessages (value : Bool)
  /-- A chat is read, or its unread messages are counted, by what came from elsewhere. -/
  | setInboxReadTill (history : Peer) (upTo : MsgId)
  | setUnreadCount (history : Peer) (facts : Facts) (newUnreadCount : ℤ)
  /-- Time passes. -/
  | tick (milliseconds : ℕ)

/-- What the histories do about an event. -/
def step (s : Histories Peer) : Event Peer → Except Failure (Histories Peer)
  | .readInboxTill history tillId force facts => s.readInboxTill history tillId force facts
  | .sendPendingReadInbox history => s.sendPendingReadInbox history
  | .readRequestsTimer =>
    if s.readRequestsTimer.any (· ≤ s.now) then
      { s with readRequestsTimer := none }.sendReadRequests
    else .ok s
  | .sendRequest history type => .ok (s.sendRequest history type .passed)
  | .cancelRequest id => s.cancelRequest id
  | .answered requestId => s.answered requestId
  | .requestDialogEntry history callback => .ok (s.requestDialogEntry history callback)
  | .sendDialogRequests =>
    match s.postponedCalls with
    | 0 => .ok s
    | calls + 1 => .ok { s with postponedCalls := calls }.sendDialogRequests
  | .peerDialogs requestId =>
    .ok { s with
      entries := s.entries.erase requestId
      finalizing := s.finalizing ++ (s.entries.find? requestId).getD [] }
  | .finalizeNext => .ok s.finalizeNext
  | .dialogEntryApplied history => .ok (s.dialogEntryApplied history)
  | .dialogEntryReturns => .ok s.dialogEntryReturns
  | .setSendReadMessages value => .ok { s with sendReadMessages := value }
  | .setInboxReadTill history upTo =>
    .ok (s.setChat history ((s.chats history).setInboxReadTill upTo))
  | .setUnreadCount history facts newUnreadCount =>
    .ok (s.setChat history ((s.chats history).setUnreadCount facts newUnreadCount))
  | .tick milliseconds => .ok { s with now := s.now + milliseconds }

/-- The histories after a list of events, if no assertion fails. -/
def runEvents (s : Histories Peer) : List (Event Peer) → Except Failure (Histories Peer)
  | [] => .ok s
  | event :: events => s.step event >>= fun s => s.runEvents events

end Histories

end Yunogram
