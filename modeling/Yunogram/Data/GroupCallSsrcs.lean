import Yunogram.Machinery.FlatMap

/-!
# Data/GroupCallSsrcs — whose audio a source number of a group call is

A group call keeps its participants, and a map of the numbers of their audio sources: the main one
of a participant, and the additional one of what the participant shows.  The map is patched with
each participant that comes, for the two kinds of numbers one after the other.

Left out is what is only shown or asked for: the about text of a peer, the updates that are fired,
what is requested of those that are not known, and when timers fire.
-/

open Machinery

namespace Yunogram.Speaking

/-- `GroupCall::kSoundStatusKeptFor`, in milliseconds. -/
def kSoundStatusKeptFor : ℤ := 1500

/-- `kSpeakingAfterActive`. -/
def kSpeakingAfterActive : ℤ := 6000

/-- `kActiveAfterJoined`. -/
def kActiveAfterJoined : ℤ := 1000

/-- `Calls::Group::kDefaultVolume`. -/
def kDefaultVolume : ℤ := 10000

/-! ## What participants show -/

/-- `tgcalls::MediaSsrcGroup`. -/
structure MediaSsrcGroup where
  semantics : String
  ssrcs : List ℕ
  deriving DecidableEq

/-- `VideoParams`. -/
structure VideoParams where
  endpointId : String
  ssrcGroups : List MediaSsrcGroup
  additionalSsrc : ℕ
  paused : Bool
  deriving DecidableEq

/-- `groupCallParticipantVideo`. -/
structure VideoData where
  endpoint : String
  sourceGroups : List MediaSsrcGroup
  audioSource : Option ℕ
  paused : Bool

/-- `ParticipantVideoParams`. -/
structure ParticipantVideoParams where
  camera : VideoParams
  screen : VideoParams
  deriving DecidableEq

/-- `VideoParams::empty`. -/
def VideoParams.isEmpty (params : VideoParams) : Bool :=
  params.additionalSsrc = 0 && (params.endpointId.isEmpty || params.ssrcGroups.isEmpty)

/-- `VideoParamsAreEqual`. -/
def videoParamsAreEqual (was : VideoParams) : Option VideoData → Bool
  | none => was.isEmpty
  | some now => now.paused = was.paused && now.audioSource.getD 0 = was.additionalSsrc &&
      now.endpoint = was.endpointId && now.sourceGroups = was.ssrcGroups

/-- `ParseVideoParams`, of one video. -/
def parseVideo : Option VideoData → VideoParams
  | none => ⟨"", [], 0, false⟩
  | some data => ⟨data.endpoint, data.sourceGroups, data.audioSource.getD 0, data.paused⟩

/-- `ParseVideoParams`. -/
def parseVideoParams (camera screen : Option VideoData) (existing : Option ParticipantVideoParams) :
    Option ParticipantVideoParams :=
  if camera.isNone && screen.isNone then none
  else match existing with
    | some params =>
      if videoParamsAreEqual params.camera camera && videoParamsAreEqual params.screen screen then
        existing
      else some ⟨parseVideo camera, parseVideo screen⟩
    | none => some ⟨parseVideo camera, parseVideo screen⟩

/-- `GetAdditionalAudioSsrc`. -/
def getAdditionalAudioSsrc : Option ParticipantVideoParams → ℕ
  | none => 0
  | some params => params.screen.additionalSsrc

/-! ## Participants -/

variable {Peer : Type} [LinearOrder Peer]

/-- `GroupCallParticipant`. -/
structure Participant (Peer : Type) where
  peer : Peer
  videoParams : Option ParticipantVideoParams
  date : ℤ
  lastActive : ℤ
  raisedHandRating : ℤ
  ssrc : ℕ
  volume : ℤ
  sounding : Bool
  speaking : Bool
  additionalSounding : Bool
  additionalSpeaking : Bool
  muted : Bool
  mutedByMe : Bool
  canSelfUnmute : Bool
  onlyMinLoaded : Bool
  videoJoined : Bool
  applyVolumeFromMin : Bool

/-- `groupCallParticipant`. -/
structure ParticipantData (Peer : Type) where
  peer : Peer
  left : Bool
  justJoined : Bool
  muted : Bool
  canSelfUnmute : Bool
  min : Bool
  volumeByAdmin : Bool
  mutedByYou : Bool
  videoJoined : Bool
  date : ℤ
  activeDate : Option ℤ
  source : ℕ
  volume : Option ℤ
  raiseHandRating : Option ℤ
  video : Option VideoData
  presentation : Option VideoData

/-- `ApplySliceSource`. -/
inductive ApplySliceSource
  | fullReloaded
  | sliceLoaded
  | unknownLoaded
  | updateReceived
  | updateConstructed
  deriving DecidableEq

/-- `LastSpokeTimes`. -/
structure LastSpokeTimes where
  anything : ℤ
  voice : ℤ

/-- `GroupCall`, with what it keeps of its participants. -/
structure GroupCall (Peer : Type) [LinearOrder Peer] where
  participants : List (Participant Peer)
  participantPeerByAudioSsrc : FlatMap ℕ Peer
  speakingByActiveFinishes : FlatMap Peer ℤ
  serverParticipantsCount : ℤ

namespace Participant

/-- The additional number of a participant. -/
def additionalSsrc (p : Participant Peer) : ℕ := getAdditionalAudioSsrc p.videoParams

/-- A number is one of a participant now, its main or its additional one. -/
def Has (p : Participant Peer) (ssrc : ℕ) : Prop := p.ssrc = ssrc ∨ p.additionalSsrc = ssrc

/-- `value`: what becomes of a participant with the data that came. -/
def value (source : ApplySliceSource) (data : ParticipantData Peer)
    (was : Option (Participant Peer)) : Participant Peer :=
  let canSelfUnmute := !data.muted || data.canSelfUnmute
  let existingVideoParams := was.bind (·.videoParams)
  { peer := data.peer
    videoParams :=
      if source = .updateConstructed then existingVideoParams
      else parseVideoParams data.video data.presentation existingVideoParams
    date := data.date
    lastActive := data.activeDate.getD ((was.map (·.lastActive)).getD 0)
    raisedHandRating := data.raiseHandRating.getD 0
    ssrc := data.source
    volume := match was with
      | some was =>
        if !was.applyVolumeFromMin && data.min then was.volume
        else data.volume.getD kDefaultVolume
      | none => data.volume.getD kDefaultVolume
    sounding := canSelfUnmute && was.any (·.sounding)
    speaking := canSelfUnmute && was.any (·.speaking)
    additionalSounding := canSelfUnmute && was.any (·.additionalSounding)
    additionalSpeaking := canSelfUnmute && was.any (·.additionalSpeaking)
    muted := data.muted
    mutedByMe := match was with
      | some was => if data.min then was.mutedByMe else data.mutedByYou
      | none => data.mutedByYou
    canSelfUnmute
    onlyMinLoaded := data.min && was.all (·.onlyMinLoaded)
    videoJoined := data.videoJoined
    applyVolumeFromMin := match was with
      | some was => if data.min then was.applyVolumeFromMin else data.min || data.volumeByAdmin
      | none => data.min || data.volumeByAdmin }

/-- `*i = value`: the participant that was found becomes another. -/
def replace (value : Participant Peer) : List (Participant Peer) → List (Participant Peer)
  | [] => []
  | p :: l => if p.peer = value.peer then value :: l else p :: replace value l

end Participant

/-- A number that there is, is mapped, when no one has it in the map. -/
def emplaceSsrc (ssrc : ℕ) (peer : Peer) (map : FlatMap ℕ Peer) : FlatMap ℕ Peer :=
  if ssrc ≠ 0 then map.emplace ssrc peer else map

/-- A number of a participant becomes another. -/
def replaceSsrc (was now : ℕ) (peer : Peer) (map : FlatMap ℕ Peer) : FlatMap ℕ Peer :=
  if was ≠ now then emplaceSsrc now peer (map.erase was) else map

namespace GroupCall

variable (s : GroupCall Peer)

/-- A group call of which nothing is known yet. -/
def new : GroupCall Peer := ⟨[], .empty, .empty, 0⟩

/-- `GroupCall::findParticipant`. -/
def findParticipant (peer : Peer) : Option (Participant Peer) :=
  s.participants.find? (·.peer = peer)

/-- A participant leaves. -/
def leave (was : Participant Peer) : GroupCall Peer :=
  { s with
    participantPeerByAudioSsrc :=
      (s.participantPeerByAudioSsrc.erase was.ssrc).erase was.additionalSsrc
    speakingByActiveFinishes := s.speakingByActiveFinishes.erase was.peer
    participants := s.participants.eraseP (·.peer = was.peer) }

/-- A participant that was not there joins. -/
def join (value : Participant Peer) : GroupCall Peer :=
  { s with
    participantPeerByAudioSsrc := emplaceSsrc value.additionalSsrc value.peer
      (emplaceSsrc value.ssrc value.peer s.participantPeerByAudioSsrc)
    participants := s.participants ++ [value] }

/-- A participant that is there changes. -/
def change (was value : Participant Peer) : GroupCall Peer :=
  { s with
    participantPeerByAudioSsrc := replaceSsrc was.additionalSsrc value.additionalSsrc value.peer
      (replaceSsrc was.ssrc value.ssrc value.peer s.participantPeerByAudioSsrc)
    participants := Participant.replace value s.participants }

/-- What `GroupCall::applyParticipantsSlice` does for one participant. -/
def applyParticipant (source : ApplySliceSource) (data : ParticipantData Peer) : GroupCall Peer :=
  let i := s.findParticipant data.peer
  if data.left then
    let s := match i with
      | some was => s.leave was
      | none => s
    { s with serverParticipantsCount :=
        s.serverParticipantsCount - if 0 < s.serverParticipantsCount then 1 else 0 }
  else
    let value := Participant.value source data i
    let s := match i with
      | none => s.join value
      | some was => s.change was value
    { s with serverParticipantsCount :=
        s.serverParticipantsCount + if data.justJoined then 1 else 0 }

/-- `GroupCall::applyParticipantsSlice`. -/
def applyParticipantsSlice (list : List (ParticipantData Peer)) (source : ApplySliceSource) :
    GroupCall Peer :=
  list.foldl (fun s data => s.applyParticipant source data) s

/-- What `GroupCall::processFullCallFields` clears. -/
def clear : GroupCall Peer :=
  { s with
    participants := []
    speakingByActiveFinishes := .empty
    participantPeerByAudioSsrc := .empty }

/-- `GroupCall::processFullCallFields`, of a call that was not discarded. -/
def processFullCallFields (participants : List (ParticipantData Peer)) : GroupCall Peer :=
  s.clear.applyParticipantsSlice participants .fullReloaded

/-- `GroupCall::applyLastSpoke`. -/
def applyLastSpoke (ssrc : ℕ) (when' : LastSpokeTimes) (now : ℤ) : Option (GroupCall Peer) :=
  match s.participantPeerByAudioSsrc.find? ssrc with
  | none => some s
  | some peer =>
    match s.findParticipant peer with
    | none => none
    | some participant =>
      let sounding := when'.anything + kSoundStatusKeptFor ≥ now && participant.canSelfUnmute
      let speaking := sounding && when'.voice + kSoundStatusKeptFor ≥ now
      let now' := if ssrc ≠ participant.ssrc then
          { participant with additionalSounding := sounding, additionalSpeaking := speaking }
        else { participant with sounding, speaking }
      some { s with
        speakingByActiveFinishes := s.speakingByActiveFinishes.erase participant.peer
        participants := Participant.replace now' s.participants }

/-- `GroupCall::applyActiveUpdate`. -/
def applyActiveUpdate (inCall : Bool) (when' : LastSpokeTimes) (participantPeerLoaded : Option Peer)
    (now unixtime : ℤ) : GroupCall Peer :=
  if inCall then s
  else match participantPeerLoaded.bind s.findParticipant with
    | none => s
    | some participant =>
      if !participant.canSelfUnmute then s
      else
        let elapsed := (now - when'.anything).tdiv 1000
        let lastActive := unixtime - elapsed
        let finishes := when'.anything + kSpeakingAfterActive
        if lastActive ≤ participant.lastActive ∨ finishes ≤ now then s
        else { s with
          speakingByActiveFinishes := s.speakingByActiveFinishes.assign participant.peer finishes
          participants := Participant.replace { participant with
            lastActive
            speaking := true
            canSelfUnmute := true } s.participants }

/-- A participant that speaks by what was active stops. -/
def stopSpeaking (peer : Peer) : Option (GroupCall Peer) :=
  match s.findParticipant peer with
  | none => none
  | some participant =>
    some { s with participants :=
      Participant.replace { participant with speaking := false } s.participants }

/-- `GroupCall::checkFinishSpeakingByActive`. -/
def checkFinishSpeakingByActive (now : ℤ) : Option (GroupCall Peer) :=
  let stop := (s.speakingByActiveFinishes.entries.filter (·.2 ≤ now)).map Prod.fst
  let finishes := s.speakingByActiveFinishes.filter fun _ when' => now < when'
  stop.foldlM stopSpeaking { s with speakingByActiveFinishes := finishes }

/-- `GroupCall::setInCall`. -/
def setInCall (now : ℤ) : GroupCall Peer :=
  { s with speakingByActiveFinishes :=
      s.speakingByActiveFinishes.mapValues fun when' => min when' (now + kActiveAfterJoined) }

end GroupCall

end Yunogram.Speaking
