import Pigeon.Ngtcp2

/-!
What `recv_on_stream` of the ngtcp2 transport returns against what the peer has sent. Bytes
beyond the ring are dropped, and so is a header whose message does not fit the buffer, and what
a broken-off receive had taken (`bytes_skipped`). Otherwise the messages returned are the
beginning of what was sent (`received_in_order`): there is no gap (`Gapless`).
-/
namespace Pigeon.Ngtcp2
open Runs Rings List Option
open Octets (Bytes be ofBe be_ofBe ofBe_be be_length)
open Sequence (forall_set getElem?_set_cases getElem?_set_found)
open CSession (pigeonMaxMsg)

def State.returnedOn (s : State) (sid : StreamId) : Bytes :=
  (s.returned.filter (·.1 = sid)).flatMap (fun message => be 4 message.2.length ++ message.2)

def State.InOrder (s : State) : Prop := ∀ sid, s.returnedOn sid <+: s.arrivedOn sid

def Ordinary : Event → Prop
  | .streamClose _ _ | .close _ _ _ | .reset _ | .shutdown => False
  | _ => True

instance : DecidablePred Ordinary
  | .streamClose _ _ | .close _ _ _ | .reset _ | .shutdown => inferInstanceAs (Decidable False)
  | .data _ _ _ | .streamOpen _ | .openStream | .acceptStream | .primaryHandle | .send _ _ _ | .recv _ _ | .wake _ _ =>
    inferInstanceAs (Decidable True)

def State.unread (s : State) (sid : StreamId) : Nat :=
  if sid = primary ∧ s.primarySlotIdx = none then s.recvBuf.used
  else ((findExtraSlot s.extraStreams sid).bind (fun i => s.extraStreams[i]?)).elim 0 (·.recvBuf.used)

def HeadFits (got : List Byte) (ring : RingBuf) (bufLen : Nat) : Prop :=
  4 ≤ (got ++ ring.contents).length →
    ofBe (values ((got ++ ring.contents).take 4)) ≤ min bufLen pigeonMaxMsg
deriving Decidable

/-- What arrives fits the ring, the next message the buffer, and no receive that has taken bytes is broken off. -/
def Fits (s : State) : Event → Prop
  | .data sid data _ => s.unread sid + data.length ≤ ngtcp2RecvBuf
  | .recv handle bufLen => ∀ pair ∈ s.usable handle, pair.2.reader = none → HeadFits [] pair.2.recvBuf bufLen
  | .wake i io => ∀ slot ∈ s.extraStreams[i]?, ∀ r ∈ slot.reader,
    if io then r.payloadLen = none → HeadFits r.got slot.recvBuf r.bufLen else r.payloadLen = none ∧ r.got = []
  | _ => True

instance (s : State) : ∀ e, Decidable (Fits s e)
  | .data _ _ _ => inferInstanceAs (Decidable (_ ≤ _))
  | .recv handle _ => inferInstanceAs (Decidable (∀ pair ∈ s.usable handle, _ → _))
  | .wake i _ => inferInstanceAs (Decidable (∀ slot ∈ s.extraStreams[i]?, ∀ r ∈ slot.reader, ite _ _ _))
  | .streamOpen _ | .streamClose _ _ | .openStream | .acceptStream | .primaryHandle | .send _ _ _ | .close _ _ _
  | .reset _ | .shutdown => inferInstanceAs (Decidable True)

def Reader.pending (r : Reader) : Bytes := r.payloadLen.elim [] (fun len => be 4 len) ++ values r.got

def Reader.Short (r : Reader) : Prop := r.got.length < r.payloadLen.getD 4

def Outcome (slot after : Slot) (r : Reader) (taken : List Byte) : Read → Prop
  | .failed => slot.finReceived = true ∧ after.recvBuf.contents = []
  | .waiting reader => slot.finReceived = false ∧ reader.pending = r.pending ++ values taken ∧ reader.Short
  | .message payload => r.pending ++ values taken = be 4 payload.length ++ payload

variable {taken : List Byte} {r : Reader} {after slot : Slot} {arrived returned payload : Bytes} {i : Nat}
  {sid : StreamId}

theorem Outcome.resumed {middle next front result}
    (same : middle.finReceived = slot.finReceived) (begun : next.pending = r.pending ++ values front)
    (outcome : Outcome middle after next taken result) : Outcome slot after r (front ++ taken) result := by
  cases result with
  | failed => exact ⟨same ▸ outcome.1,outcome.2⟩
  | waiting reader =>
    refine ⟨same ▸ outcome.1,?_,outcome.2.2⟩
    rw [outcome.2.1,begun,values_append,append_assoc]
  | message payload =>
    simp only [Outcome] at outcome ⊢
    rw [← outcome,begun,values_append,append_assoc]

def OutcomeN (slot after : Slot) (total want : Nat) (taken : List Byte) : ReadN → Prop
  | .filled => taken.length = want - total
  | .waiting => slot.finReceived = false ∧ total + taken.length < want
  | .failed => slot.finReceived = true ∧ after.recvBuf.contents = []

theorem slotReadN_outcome (alive : slot.closing = false) (sound : slot.recvBuf.Sound) {total want}
    (short : total < want) {outcome} (reads : slotReadN false slot total want = (after,taken,outcome)) :
    taken = slot.recvBuf.contents.take (want - total) ∧ after.finReceived = slot.finReceived ∧
      after.closing = false ∧ after.recvBuf.Sound ∧ OutcomeN slot after total want taken outcome := by
  obtain ⟨popped,left,still⟩ := contents_pop sound (want - total)
  have counted : (slot.recvBuf.pop (want - total)).1.length = min (want - total) slot.recvBuf.used := by
    rw [popped,length_take,length_contents]
  unfold slotReadN at reads
  rw [if_neg (by simp [alive])] at reads
  dsimp only at reads
  split_ifs at reads with enough ended
  · obtain ⟨rfl,rfl,rfl⟩ := reads
    exact ⟨popped,rfl,alive,still,show _ = _ by omega⟩
  · obtain ⟨rfl,rfl,rfl⟩ := reads
    refine ⟨popped,rfl,alive,still,ended,?_⟩
    rw [left,drop_eq_nil_iff,length_contents]
    omega
  · obtain ⟨rfl,rfl,rfl⟩ := reads
    exact ⟨popped,rfl,alive,still,by simpa using ended,by omega⟩

theorem readPayload_outcome (alive : slot.closing = false) (sound : slot.recvBuf.Sound) {len}
    (phase : r.payloadLen = some len) (short : r.got.length < len) :
    Outcome slot (readPayload false slot r len).1 r (readPayload false slot r len).2.1
      (readPayload false slot r len).2.2 := by
  have begun : r.pending = be 4 len ++ values r.got := by simp [Reader.pending,phase]
  unfold readPayload
  cases read : slotReadN false slot r.got.length len with
  | mk after inner =>
    obtain ⟨taken,outcome⟩ := inner
    obtain ⟨-,-,-,-,came⟩ := slotReadN_outcome alive sound short read
    cases outcome with
    | filled =>
      have counted : taken.length = len - r.got.length := came
      have whole : (values (r.got ++ taken)).length = len := by
        rw [length_values,length_append]
        omega
      rw [Outcome,whole,begun,values_append,append_assoc]
    | waiting =>
      refine ⟨came.1,by simp [Reader.pending],?_⟩
      simpa [Reader.Short,phase] using came.2
    | failed => exact came

theorem rawRecv_header {middle header} (phase : r.payloadLen = none)
    (read : slotReadN false slot r.got.length 4 = (middle,header,.filled))
    (small : ofBe (values (r.got ++ header)) ≤ min r.bufLen pigeonMaxMsg) : rawRecv false slot r =
      if ofBe (values (r.got ++ header)) = 0 then (middle,header,.message [])
      else
        let rest := readPayload false middle { r with payloadLen := some (ofBe (values (r.got ++ header))), got := [] }
          (ofBe (values (r.got ++ header)))
        (rest.1,header ++ rest.2.1,rest.2.2) := by
  have fits_max : ¬ pigeonMaxMsg < ofBe (values (r.got ++ header)) := by omega
  have fits_buf : ¬ r.bufLen < ofBe (values (r.got ++ header)) := by omega
  simp only [rawRecv,phase,read,fits_max,fits_buf,if_false]

theorem rawRecv_outcome (alive : slot.closing = false) (sound : slot.recvBuf.Sound) (short : r.Short)
    (fits : r.payloadLen = none → HeadFits r.got slot.recvBuf r.bufLen) :
    Outcome slot (rawRecv false slot r).1 r (rawRecv false slot r).2.1 (rawRecv false slot r).2.2 := by
  cases phase : r.payloadLen with
  | some len =>
    have lacking : r.got.length < len := by simpa [Reader.Short,phase] using short
    simp only [rawRecv,phase]
    exact readPayload_outcome alive sound phase lacking
  | none =>
    have lacking : r.got.length < 4 := by simpa [Reader.Short,phase] using short
    have begun : r.pending = values r.got := by simp [Reader.pending,phase]
    cases read : slotReadN false slot r.got.length 4 with
    | mk middle inner =>
      obtain ⟨header,outcome⟩ := inner
      obtain ⟨taken_is,same_fin,open_,still,came⟩ := slotReadN_outcome alive sound lacking read
      cases outcome with
      | failed =>
        simp only [rawRecv,phase,read]
        exact came
      | waiting =>
        simp only [rawRecv,phase,read]
        refine ⟨came.1,by simp [Reader.pending,phase],?_⟩
        simpa [Reader.Short,phase] using came.2
      | filled =>
        have counted : header.length = 4 - r.got.length := came
        have four : (values (r.got ++ header)).length = 4 := by
          rw [length_values,length_append]
          omega
        have at_front : (r.got ++ slot.recvBuf.contents).take 4 = r.got ++ header := by
          rw [take_append,take_of_length_le (by omega),taken_is]
        have inside : header.length ≤ slot.recvBuf.contents.length := by
          rw [taken_is,length_take]
          omega
        have small := fits phase (by rw [length_append]; omega)
        rw [at_front] at small
        have front : be 4 (ofBe (values (r.got ++ header))) = r.pending ++ values header := by
          rw [be_ofBe four,begun,values_append]
        rw [rawRecv_header phase read small]
        by_cases nothing : ofBe (values (r.got ++ header)) = 0
        · rw [if_pos nothing,Outcome,← front,nothing]
          rfl
        · rw [if_neg nothing]
          generalize ofBe (values (r.got ++ header)) = len at front nothing ⊢
          have begun_rest : Reader.pending { r with payloadLen := some len, got := [] } =
              r.pending ++ values header := by
            simpa [Reader.pending] using front
          exact (readPayload_outcome open_ still rfl (Nat.pos_of_ne_zero nothing)).resumed same_fin begun_rest

/-- What was returned, taken and in the ring follow without a gap; or the end has come in an incomplete message. -/
def Gapless (arrived returned pending : Bytes) (slot : Slot) : Prop :=
  returned ++ pending ++ values slot.recvBuf.contents = arrived ∨
    (slot.finReceived = true ∧ slot.recvBuf.contents = [] ∧ pending = [] ∧ returned <+: arrived)

theorem Gapless.isPrefix {pending} (gapless : Gapless arrived returned pending slot) : returned <+: arrived := by
  rcases gapless with all | ⟨_,_,_,first⟩
  · exact ⟨pending ++ values slot.recvBuf.contents,by rw [← all,append_assoc]⟩
  · exact first

def Slot.pending (slot : Slot) : Bytes := slot.reader.elim [] Reader.pending

structure Slot.Kept (slot : Slot) (arrived returned : Bytes) : Prop where
  sound : slot.recvBuf.Sound
  short : ∀ r ∈ slot.reader, r.Short
  gapless : Gapless arrived returned slot.pending slot

theorem kept_ring (sid : StreamId) {ring} (sound : ring.Sound) :
    (Slot.holding sid ring).Kept (values ring.contents) [] := by
  refine ⟨sound,?_,.inl rfl⟩
  intro r waits
  exact nomatch waits

theorem Slot.Kept.take (kept : slot.Kept arrived returned) (unfinished : slot.finReceived = false) {bytes}
    (room : slot.recvBuf.used + bytes.length ≤ ngtcp2RecvBuf) (fin : Bool) :
    (slot.take bytes fin).Kept (arrived ++ values bytes) returned := by
  refine ⟨sound_push kept.sound bytes,kept.short,?_⟩
  rcases kept.gapless with all | ⟨ended,_⟩
  · refine .inl ?_
    show returned ++ slot.pending ++ values (slot.recvBuf.push bytes).contents = arrived ++ values bytes
    rw [contents_push_fitting kept.sound room,values_append,← append_assoc,all]
  · exact nomatch ended.symm.trans unfinished

def AfterRead (after : Slot) (arrived returned : Bytes) : Read → Prop
  | .failed => Slot.Kept { after with reader := none } arrived returned
  | .waiting reader => Slot.Kept { after with reader := some reader } arrived returned
  | .message payload => Slot.Kept { after with reader := none } arrived (returned ++ (be 4 payload.length ++ payload))

theorem afterRead_of_outcome {result} (sound : slot.recvBuf.Sound) (gapless : Gapless arrived returned r.pending slot)
    (takes : Takes slot after taken) (outcome : Outcome slot after r taken result) :
    AfterRead after arrived returned result := by
  obtain ⟨ring,rfl,_,left⟩ := takes
  obtain ⟨still,all⟩ := left sound
  have nobody : ∀ q ∈ (none : Option Reader), q.Short := fun q absent => nomatch absent
  have joined : returned ++ r.pending ++ values slot.recvBuf.contents =
      returned ++ (r.pending ++ values taken) ++ values ring.contents := by
    rw [← all,values_append]
    simp only [append_assoc]
  cases result with
  | failed => exact ⟨still,nobody,.inr ⟨outcome.1,outcome.2,rfl,gapless.isPrefix⟩⟩
  | waiting reader =>
    obtain ⟨unfinished,taken_too,short⟩ := outcome
    refine ⟨still,fun q same => mem_some.mp same ▸ short,?_⟩
    rcases gapless with whole | ⟨ended,_⟩
    · refine .inl ?_
      show returned ++ reader.pending ++ values ring.contents = arrived
      rw [taken_too,← joined,whole]
    · exact nomatch ended.symm.trans unfinished
  | message payload =>
    have came : r.pending ++ values taken = be 4 payload.length ++ payload := outcome
    refine ⟨still,nobody,.inl ?_⟩
    rcases gapless with whole | ⟨_,empty,none_pending,_⟩
    · show returned ++ (be 4 payload.length ++ payload) ++ [] ++ values ring.contents = arrived
      rw [append_nil,← came,← joined,whole]
    · have nothing : taken = [] := (append_eq_nil_iff.mp (all.trans empty)).1
      have lengths := congrArg length came
      simp only [none_pending,nothing,values_nil,append_nil,length_nil,length_append,be_length] at lengths
      omega

structure Kept (s : State) : Prop where
  alive : s.closed = false
  opened : 1 ≤ s.opened
  flags : ∀ (i : Nat) slot, s.extraStreams[i]? = some slot → slot.closing = false ∧ slot.writeClosed = false
  idle : ∀ (i : Nat) slot, s.extraStreams[i]? = some slot → slot.inUse = false → slot.reader = none
  single : ∀ (i j : Nat) sid, Holds s.extraStreams i sid → Holds s.extraStreams j sid → i = j
  exist : ∀ (i : Nat) sid, Holds s.extraStreams i sid → sid % 4 = 0 → sid < 4 * s.opened
  bound : ∀ i, Holds s.extraStreams i primary ↔ s.primarySlotIdx = some i
  legacy : s.primarySlotIdx = none → s.recvBuf.Sound ∧ values s.recvBuf.contents = s.arrivedOn primary
  ended : ∀ (i : Nat) slot, s.extraStreams[i]? = some slot → slot.inUse = true → slot.finReceived = true →
    slot.streamId ∈ s.finished
  kept : ∀ (i : Nat) slot, s.extraStreams[i]? = some slot → slot.inUse = true →
    slot.Kept (s.arrivedOn slot.streamId) (s.returnedOn slot.streamId)
  silent : ∀ sid, (∀ i, ¬ Holds s.extraStreams i sid) → s.returnedOn sid = []
  early : ∀ sid, sid ≠ primary → (∀ i, ¬ Holds s.extraStreams i sid) → s.arrivedOn sid = [] ∨
    ∀ (i : Nat) slot, s.extraStreams[i]? = some slot → slot.inUse = true
  unborn : ∀ sid : StreamId, sid % 4 = 0 → 4 * s.opened ≤ sid → s.arrivedOn sid = []

theorem kept_start : Kept start := by
  have slots : ∀ (i : Nat) slot, start.extraStreams[i]? = some slot → slot = Slot.free := by
    intro i slot found
    exact (mem_replicate.mp (mem_of_getElem? found)).2
  have none_holds : ∀ i sid, ¬ Holds start.extraStreams i sid := by
    rintro i sid ⟨slot,found,used,-⟩
    simp [slots i slot found,Slot.free] at used
  refine ⟨rfl,Nat.le_refl 1,?_,?_,?_,?_,?_,fun _ => ⟨sound_empty (by decide),rfl⟩,?_,?_,fun _ _ => rfl,
    fun _ _ _ => .inl rfl,fun _ _ _ => rfl⟩
  · intro i slot found
    rw [slots i slot found]
    exact ⟨rfl,rfl⟩
  · intro i slot found _
    rw [slots i slot found]
    rfl
  · exact fun i j sid holds _ => absurd holds (none_holds i sid)
  · exact fun i sid holds _ => absurd holds (none_holds i sid)
  · exact fun i => ⟨fun holds => absurd holds (none_holds i primary),fun absent => nomatch absent⟩
  · intro i slot found used _
    exact absurd ⟨slot,found,used,rfl⟩ (none_holds i slot.streamId)
  · intro i slot found used
    exact absurd ⟨slot,found,used,rfl⟩ (none_holds i slot.streamId)

theorem Kept.inOrder {s} (old : Kept s) : s.InOrder := by
  intro sid
  by_cases somewhere : ∃ i, Holds s.extraStreams i sid
  · obtain ⟨i,slot,found,used,rfl⟩ := somewhere
    exact (old.kept i slot found used).gapless.isPrefix
  · rw [old.silent sid (not_exists.mp somewhere)]
    exact nil_prefix

variable {s t : State}

theorem Kept.aside (old : Kept s) (queue : Ring Nat ngtcp2MaxExtraStreams) (grants : List Grant) (calls : List Call)
    (written : List Written) :
    Kept { s with acceptQueue := queue, grants := grants, calls := calls, written := written } :=
  { old with }

theorem Kept.put (old : Kept s) (slots : t.extraStreams = s.extraStreams.set i after)
    (flags : after.inUse ∧ after.closing = false ∧ after.writeClosed = false)
    (holds : ∀ {j} {sid : StreamId},
      Holds t.extraStreams j sid ↔ j = i ∧ sid = after.streamId ∨ Holds s.extraStreams j sid)
    (alone : ∀ j, Holds s.extraStreams j after.streamId → j = i) (closed : t.closed = s.closed)
    (opened : t.opened = s.opened) (exist : after.streamId % 4 = 0 → after.streamId < 4 * s.opened)
    (bound : ∀ j, Holds t.extraStreams j primary ↔ t.primarySlotIdx = some j)
    (legacy : t.primarySlotIdx = none → t.recvBuf.Sound ∧ values t.recvBuf.contents = t.arrivedOn primary)
    (finished : s.finished ⊆ t.finished) (ended : after.finReceived → after.streamId ∈ t.finished)
    (others : ∀ sid, sid ≠ after.streamId → t.arrivedOn sid = s.arrivedOn sid ∧ t.returnedOn sid = s.returnedOn sid)
    (kept : after.Kept (t.arrivedOn after.streamId) (t.returnedOn after.streamId)) : Kept t := by
  have here : Holds t.extraStreams i after.streamId := holds.mpr (.inl ⟨rfl,rfl⟩)
  refine ⟨closed.trans old.alive,opened ▸ old.opened,?_,?_,?_,?_,bound,legacy,?_,?_,?_,?_,?_⟩
  · rw [slots]
    exact forall_set flags.2 (fun j other _ => old.flags j other)
  · rw [slots]
    exact forall_set (fun unused => nomatch flags.1.symm.trans unused) (fun j other _ => old.idle j other)
  · intro j k sid one two
    rcases holds.mp one with ⟨rfl,rfl⟩ | one
    · rcases holds.mp two with ⟨rfl,_⟩ | two
      · rfl
      · exact (alone k two).symm
    · rcases holds.mp two with ⟨rfl,rfl⟩ | two
      · exact alone j one
      · exact old.single j k sid one two
  · intro j sid one own
    rw [opened]
    rcases holds.mp one with ⟨_,rfl⟩ | one
    · exact exist own
    · exact old.exist j sid one own
  · rw [slots]
    refine forall_set (fun _ fin => ended fin) ?_
    intro j other _ before inUse fin
    exact finished (old.ended j other before inUse fin)
  · rw [slots]
    refine forall_set (fun _ => kept) ?_
    intro j other differs before inUse
    have apart : other.streamId ≠ after.streamId := fun same => differs (alone j ⟨other,before,inUse,same⟩)
    rw [(others _ apart).1,(others _ apart).2]
    exact old.kept j other before inUse
  · intro sid nobody
    have apart : sid ≠ after.streamId := fun same => nobody i (same ▸ here)
    rw [(others sid apart).2]
    exact old.silent sid (fun j one => nobody j (holds.mpr (.inr one)))
  · intro sid second nobody
    have apart : sid ≠ after.streamId := fun same => nobody i (same ▸ here)
    rw [(others sid apart).1]
    refine (old.early sid second (fun j one => nobody j (holds.mpr (.inr one)))).imp_right ?_
    intro full
    rw [slots]
    exact forall_set flags.1 (fun j other _ => full j other)
  · intro sid own later
    rw [opened] at later
    have apart : sid ≠ after.streamId := by
      rintro rfl
      exact Int.not_lt.mpr later (exist own)
    rw [(others sid apart).1]
    exact old.unborn sid own later

theorem Kept.change (old : Kept s) (at_i : s.extraStreams[i]? = some slot) (used : slot.inUse)
    (slots : t.extraStreams = s.extraStreams.set i after)
    (same : after.inUse ∧ after.streamId = slot.streamId ∧ after.closing = false ∧ after.writeClosed = false)
    (rest : t.closed = s.closed ∧ t.opened = s.opened ∧ t.primarySlotIdx = s.primarySlotIdx ∧ t.recvBuf = s.recvBuf)
    (finished : s.finished ⊆ t.finished) (ended : after.finReceived → slot.streamId ∈ t.finished)
    (others : ∀ sid, sid ≠ slot.streamId → t.arrivedOn sid = s.arrivedOn sid ∧ t.returnedOn sid = s.returnedOn sid)
    (kept : after.Kept (t.arrivedOn slot.streamId) (t.returnedOn slot.streamId)) : Kept t := by
  obtain ⟨after_used,stream,flags⟩ := same
  obtain ⟨closed,opened,idx,ring⟩ := rest
  have same_holds : ∀ {j : Nat} {sid : StreamId}, Holds t.extraStreams j sid ↔ Holds s.extraStreams j sid := by
    intro j sid
    rw [slots]
    exact holds_set_iff at_i (after_used.trans used.symm) stream
  have here : Holds s.extraStreams i after.streamId := ⟨slot,at_i,used,stream.symm⟩
  rw [← stream] at ended others kept
  refine old.put slots ⟨after_used,flags⟩ ?_ ?_ closed opened ?_ ?_ ?_ finished ended others kept
  · intro j sid
    rw [same_holds]
    refine ⟨.inr,?_⟩
    rintro (⟨rfl,rfl⟩ | holds)
    · exact here
    · exact holds
  · exact fun j one => old.single j i _ one here
  · exact old.exist i after.streamId here
  · intro j
    rw [same_holds,idx]
    exact old.bound j
  · intro unbound
    have elsewhere : primary ≠ after.streamId := by
      intro same
      have at_primary := (old.bound i).mp (same ▸ here)
      rw [idx,at_primary] at unbound
      exact nomatch unbound
    rw [ring,(others primary elsewhere).1]
    exact old.legacy (idx ▸ unbound)

theorem Kept.occupy (old : Kept s) (at_i : s.extraStreams[i]? = some slot) (free : slot.inUse = false)
    (slots : t.extraStreams = s.extraStreams.set i after)
    (flags : after.inUse ∧ after.closing = false ∧ after.writeClosed = false)
    (nobody : ∀ j, ¬ Holds s.extraStreams j after.streamId) (closed : t.closed = s.closed)
    (opened : t.opened = s.opened) (exist : after.streamId % 4 = 0 → after.streamId < 4 * s.opened)
    (idx : after.streamId ≠ primary ∧ t.primarySlotIdx = s.primarySlotIdx ∧ t.recvBuf = s.recvBuf ∨
      after.streamId = primary ∧ t.primarySlotIdx = some i) (finished : s.finished ⊆ t.finished)
    (ended : after.finReceived → after.streamId ∈ t.finished)
    (others : ∀ sid, sid ≠ after.streamId → t.arrivedOn sid = s.arrivedOn sid ∧ t.returnedOn sid = s.returnedOn sid)
    (kept : after.Kept (t.arrivedOn after.streamId) (t.returnedOn after.streamId)) : Kept t := by
  have holds : ∀ {j : Nat} {sid : StreamId},
      Holds t.extraStreams j sid ↔ j = i ∧ sid = after.streamId ∨ Holds s.extraStreams j sid := by
    intro j sid
    rw [slots]
    exact holds_occupy_iff at_i free flags.1
  have alone : ∀ j, Holds s.extraStreams j after.streamId → j = i := fun j one => absurd one (nobody j)
  refine old.put slots flags holds alone closed opened exist ?_ ?_ finished ended others kept
  · intro j
    rcases idx with ⟨second,idx,_⟩ | ⟨first,idx⟩
    · rw [idx,holds,← old.bound j]
      exact or_iff_right (fun both => second both.2.symm)
    · have before : ¬ Holds s.extraStreams j primary := first ▸ nobody j
      rw [idx,holds,first,or_iff_left before,some.injEq]
      exact ⟨fun both => both.1.symm,fun same => ⟨same.symm,rfl⟩⟩
  · intro unbound
    rcases idx with ⟨second,idx,ring⟩ | ⟨_,idx⟩
    · rw [ring,(others primary (Ne.symm second)).1]
      exact old.legacy (idx ▸ unbound)
    · rw [idx] at unbound
      exact nomatch unbound

theorem arrivedOn_extendMax (s : State) (sid : StreamId) (data : Bytes) (fin : Bool) (other : StreamId) :
    (s.extendMax sid data fin).arrivedOn other = s.arrivedOn other ++ if other = sid then data else [] := by
  have part : values ((arriving sid data).filter (·.stream = other)) = if other = sid then data else [] := by
    by_cases same : other = sid
    · have all : (arriving sid data).filter (·.stream = other) = arriving sid data :=
        filter_eq_self.mpr (by simp [arriving,same])
      rw [all,if_pos same,values_arriving]
    · have nothing : (arriving sid data).filter (·.stream = other) = [] :=
        filter_eq_nil_iff.mpr (by simp [arriving,Ne.symm same])
      rw [nothing,if_neg same,values_nil]
  simp only [State.arrivedOn,State.extendMax,filter_append,values_append,part]

theorem returnedOn_returns (s : State) (sid : StreamId) (payload : Bytes) (other : StreamId) :
    (s.returns sid payload).returnedOn other =
      s.returnedOn other ++ if other = sid then be 4 payload.length ++ payload else [] := by
  simp only [State.returnedOn,State.returns,filter_append,flatMap_append]
  by_cases same : other = sid
  · simp [same]
  · simp [same,Ne.symm same]

theorem Kept.find (old : Kept s) (holds : Holds s.extraStreams i sid) :
    findExtraSlot s.extraStreams sid = some i := by
  cases found : findExtraSlot s.extraStreams sid with
  | none =>
    obtain ⟨slot,at_i,used,stream⟩ := holds
    exact absurd stream (findExtraSlot_none found at_i used)
  | some j => rw [old.single j i sid (findExtraSlot_some found) holds]

theorem Kept.unread_eq (old : Kept s) (at_i : s.extraStreams[i]? = some slot) (used : slot.inUse) :
    s.unread slot.streamId = slot.recvBuf.used := by
  have here : Holds s.extraStreams i slot.streamId := ⟨slot,at_i,used,rfl⟩
  have bound : ¬ (slot.streamId = primary ∧ s.primarySlotIdx = none) := by
    rintro ⟨first,unbound⟩
    have at_primary := (old.bound i).mp (first ▸ here)
    rw [unbound] at at_primary
    exact nomatch at_primary
  simp only [State.unread,if_neg bound,old.find here,bind_some,at_i,elim_some]

theorem finished_extendMax (s : State) (sid : StreamId) (data : Bytes) (fin : Bool) :
    s.finished ⊆ (s.extendMax sid data fin).finished := by
  simp only [State.extendMax]
  split
  · exact subset_cons_self sid s.finished
  · exact fun _ mem => mem

section
variable (old : Kept s)
include old

theorem Kept.fill (holds : Holds s.extraStreams i sid) {data} (unfinished : sid ∉ s.finished)
    (room : s.unread sid + data.length ≤ ngtcp2RecvBuf) (fin : Bool) :
    Kept ((s.fill i (arriving sid data) fin).extendMax sid data fin) := by
  obtain ⟨slot,at_i,used,rfl⟩ := holds
  have going_on : slot.finReceived = false := by
    by_contra ended
    exact unfinished (old.ended i slot at_i used (by simpa using ended))
  have fits : slot.recvBuf.used + (arriving slot.streamId data).length ≤ ngtcp2RecvBuf := by
    rwa [length_arriving,← old.unread_eq at_i used]
  have kept := (old.kept i slot at_i used).take going_on fits fin
  rw [values_arriving] at kept
  rw [fill_eq at_i]
  have arrived := arrivedOn_extendMax (s.setSlot i (slot.take (arriving slot.streamId data) fin)) slot.streamId data fin
  refine old.change at_i used rfl ⟨used,rfl,old.flags i slot at_i⟩ ⟨rfl,rfl,rfl,rfl⟩
    (finished_extendMax s _ data fin) ?_ ?_ ?_
  · intro ended
    have last : fin = true := by simpa [Slot.take,going_on] using ended
    simp [State.extendMax,last]
  · intro sid apart
    refine ⟨?_,rfl⟩
    rw [arrived sid,if_neg apart,append_nil]
    rfl
  · rw [arrived slot.streamId,if_pos rfl]
    exact kept

theorem Kept.incoming (made : s.incoming sid = some (t,i)) (second : sid ≠ primary)
    (missing : findExtraSlot s.extraStreams sid = none) (exist : sid % 4 = 0 → sid < 4 * s.opened) :
    Kept t ∧ Holds t.extraStreams i sid ∧ t.unread sid = 0 := by
  obtain ⟨slot,at_i,free,rfl⟩ := incoming_some made
  have nobody : ∀ j, ¬ Holds s.extraStreams j sid := by
    rintro j ⟨other,found,used,stream⟩
    exact findExtraSlot_none missing found used stream
  have nothing : s.arrivedOn sid = [] := by
    refine (old.early sid second nobody).resolve_right ?_
    intro full
    simp [full i slot at_i] at free
  have kept : (Slot.fresh sid).Kept (s.arrivedOn sid) (s.returnedOn sid) := by
    rw [nothing,old.silent sid nobody]
    exact kept_ring sid (sound_empty (by decide))
  have next : Kept { s.setSlot i (Slot.fresh sid) with acceptQueue := s.acceptQueue.push [i] } :=
    old.occupy at_i free rfl ⟨rfl,rfl,rfl⟩ nobody rfl rfl exist (.inl ⟨second,rfl,rfl⟩) (Subset.refl _)
      nofun (fun _ _ => ⟨rfl,rfl⟩) kept
  have at_new : (s.extraStreams.set i (Slot.fresh sid))[i]? = some (Slot.fresh sid) := getElem?_set_found at_i
  exact ⟨next,⟨_,at_new,rfl,rfl⟩,next.unread_eq at_new rfl⟩

theorem Kept.dropped (second : sid ≠ primary) (missing : findExtraSlot s.extraStreams sid = none)
    (full : freeSlot s.extraStreams = none) (exist : sid % 4 = 0 → sid < 4 * s.opened) (data : Bytes) (fin : Bool) :
    Kept (s.extendMax sid data fin) := by
  have elsewhere : ∀ other, other ≠ sid → (s.extendMax sid data fin).arrivedOn other = s.arrivedOn other := by
    intro other apart
    rw [arrivedOn_extendMax,if_neg apart,append_nil]
  refine { old with legacy := ?_, ended := ?_, kept := ?_, early := ?_, unborn := ?_ }
  · intro unbound
    rw [elsewhere primary (Ne.symm second)]
    exact old.legacy unbound
  · intro i slot found used ended
    exact finished_extendMax s sid data fin (old.ended i slot found used ended)
  · intro i slot found used
    rw [elsewhere _ (findExtraSlot_none missing found used)]
    exact old.kept i slot found used
  · intro other _ _
    exact .inr (fun i slot found => freeSlot_none full found)
  · intro other own later
    have apart : other ≠ sid := by
      rintro rfl
      exact Int.not_lt.mpr later (exist own)
    rw [elsewhere other apart]
    exact old.unborn other own later

theorem Kept.legacyData (unbound : s.primarySlotIdx = none) {data}
    (room : s.recvBuf.used + data.length ≤ ngtcp2RecvBuf) (fin : Bool) :
    Kept ({ s with recvBuf := s.recvBuf.push (arriving primary data) }.extendMax primary data fin) := by
  have nobody : ∀ i, ¬ Holds s.extraStreams i primary := by
    intro i holds
    exact nomatch unbound.symm.trans ((old.bound i).mp holds)
  have elsewhere : ∀ other, other ≠ primary →
      ({ s with recvBuf := s.recvBuf.push (arriving primary data) }.extendMax primary data fin).arrivedOn other =
        s.arrivedOn other := by
    intro other apart
    rw [arrivedOn_extendMax,if_neg apart,append_nil]
    rfl
  obtain ⟨sound,all⟩ := old.legacy unbound
  refine { old with legacy := ?_, ended := ?_, kept := ?_, early := ?_, unborn := ?_ }
  · intro _
    refine ⟨sound_push sound _,?_⟩
    show values (s.recvBuf.push (arriving primary data)).contents = _
    rw [contents_push_fitting sound (by rwa [length_arriving]),values_append,values_arriving,arrivedOn_extendMax,
      if_pos rfl,all]
    rfl
  · intro i slot found used ended
    exact finished_extendMax s primary data fin (old.ended i slot found used ended)
  · intro i slot found used
    have apart : slot.streamId ≠ primary := fun same => nobody i ⟨slot,found,used,same⟩
    rw [elsewhere _ apart]
    exact old.kept i slot found used
  · intro other second none_holds
    rw [elsewhere other second]
    exact old.early other second none_holds
  · intro other own later
    have apart : other ≠ primary := by
      rintro rfl
      have first := old.opened
      have : (4 * s.opened : Int) ≤ 0 := later
      omega
    rw [elsewhere other apart]
    exact old.unborn other own later

theorem Kept.data {data} (room : s.unread sid + data.length ≤ ngtcp2RecvBuf) (fin : Bool) :
    Kept (s.data sid data fin) := by
  unfold State.data
  refine of_guard old ?_
  rintro ⟨_,_,exist,unfinished,_⟩
  unfold State.recvStreamData
  by_cases first : sid = primary
  · rw [if_pos first]
    subst first
    cases bound : s.primarySlotIdx with
    | some p => exact old.fill ((old.bound p).mpr bound) unfinished room fin
    | none =>
      have own_ring : s.unread primary = s.recvBuf.used := by simp [State.unread,bound]
      rw [own_ring] at room
      simpa only [bound] using old.legacyData bound room fin
  · rw [if_neg first]
    cases found : findExtraSlot s.extraStreams sid with
    | some i => exact old.fill (findExtraSlot_some found) unfinished room fin
    | none =>
      cases made : s.incoming sid with
      | none => exact old.dropped first found (incoming_none made) exist data fin
      | some result =>
        obtain ⟨u,i⟩ := result
        obtain ⟨next,holds,empty⟩ := old.incoming made first found exist
        obtain ⟨slot,_,_,same⟩ := incoming_some made
        have before : u.finished = s.finished := by rw [same]; rfl
        exact next.fill holds (before ▸ unfinished) (by omega) fin

theorem Kept.streamOpen (exist : sid % 4 = 0 → sid < 4 * s.opened) : Kept (s.streamOpen sid) := by
  unfold State.streamOpen
  by_cases first : sid = primary
  · rw [if_pos first]
    exact old
  · rw [if_neg first]
    cases found : findExtraSlot s.extraStreams sid with
    | some _ => exact old
    | none =>
      cases made : s.incoming sid with
      | none => exact old
      | some result => exact (old.incoming made first found exist).1

theorem Kept.openStream : Kept s.openStream := by
  have next : Kept { s with opened := s.opened + 1 } := by
    refine { old with opened := Nat.le_succ_of_le old.opened, exist := ?_, unborn := ?_ }
    · intro i sid holds own
      have before := old.exist i sid holds own
      push_cast
      exact Int.lt_of_lt_of_le before (by omega)
    · intro sid own later
      refine old.unborn sid own (Int.le_trans ?_ later)
      push_cast
      omega
  unfold State.openStream
  rw [if_neg (by simp [old.alive])]
  simp only [State.allocExtraSlot]
  cases free : freeSlot s.extraStreams with
  | none => exact next
  | some i =>
    obtain ⟨slot,at_i,unused⟩ := freeSlot_some free
    have later : (4 * s.opened : Int) % 4 = 0 := by omega
    have nobody : ∀ j, ¬ Holds s.extraStreams j (4 * s.opened) := by
      intro j holds
      exact Int.lt_irrefl _ (old.exist j _ holds later)
    have kept : (Slot.fresh (4 * s.opened)).Kept (s.arrivedOn (4 * s.opened)) (s.returnedOn (4 * s.opened)) := by
      rw [old.unborn _ later (Int.le_refl _),old.silent _ nobody]
      exact kept_ring _ (sound_empty (by decide))
    have first := old.opened
    refine next.occupy at_i unused rfl ⟨rfl,rfl,rfl⟩ nobody rfl rfl ?_ (.inl ⟨?_,rfl,rfl⟩) (Subset.refl _)
      (fun ended => absurd ended Bool.false_ne_true) (fun _ _ => ⟨rfl,rfl⟩) kept
    · intro _
      show (4 * s.opened : Int) < 4 * ((s.opened + 1 : Nat) : Int)
      omega
    · show (4 * s.opened : Int) ≠ 0
      omega

theorem Kept.acceptStream : Kept s.acceptStream := by
  unfold State.acceptStream
  rw [if_neg (by simp [old.alive])]
  split
  · split
    · exact old.aside _ _ _ _
    · exact old.aside _ _ _ _
  · exact old

theorem Kept.primaryHandle : Kept s.primaryHandle := by
  unfold State.primaryHandle
  rw [if_neg (by simp [old.alive])]
  cases bound : s.primarySlotIdx with
  | some p =>
    exact old.aside _ _ _ _
  | none =>
    cases free : freeSlot s.extraStreams with
    | none => exact old
    | some i =>
      obtain ⟨slot,at_i,unused⟩ := freeSlot_some free
      obtain ⟨sound,all⟩ := old.legacy bound
      have room : (Ring.empty : RingBuf).used + s.recvBuf.used ≤ ngtcp2RecvBuf := by
        simpa [Ring.empty] using sound.fits
      obtain ⟨_,_,sound_moved,moved⟩ := migrate_moves sound (sound_empty (by decide)) room (Nat.le_refl _)
      have nobody : ∀ j, ¬ Holds s.extraStreams j primary := by
        intro j holds
        exact nomatch bound.symm.trans ((old.bound j).mp holds)
      have first := old.opened
      generalize migrate s.recvBuf.used s.recvBuf Ring.empty = result at *
      have kept : (Slot.holding primary result.2).Kept (s.arrivedOn primary) (s.returnedOn primary) := by
        rw [old.silent primary nobody,← all,show s.recvBuf.contents = result.2.contents from moved.symm]
        exact kept_ring primary sound_moved
      refine old.occupy at_i unused rfl ⟨rfl,rfl,rfl⟩ nobody rfl rfl ?_ (.inr ⟨rfl,rfl⟩) (Subset.refl _)
        nofun (fun _ _ => ⟨rfl,rfl⟩) kept
      intro _
      show (0 : Int) < 4 * s.opened
      omega

theorem Kept.send (handle : Nat) (data : Bytes) (failedAfter : Option Nat) :
    Kept (s.send handle data failedAfter) := by
  unfold State.send
  split
  · split
    · exact old.aside _ _ _ _
    · exact old.aside _ _ _ _
  · exact old

theorem Kept.settle (at_i : s.extraStreams[i]? = some slot) (used : slot.inUse) {ring} {reader}
    (slots : t.extraStreams = s.extraStreams.set i { slot with recvBuf := ring, reader := reader })
    (rest : t.closed = s.closed ∧ t.opened = s.opened ∧ t.primarySlotIdx = s.primarySlotIdx ∧ t.recvBuf = s.recvBuf)
    (logs : t.finished = s.finished ∧ t.arrived = s.arrived)
    (others : ∀ sid, sid ≠ slot.streamId → t.returnedOn sid = s.returnedOn sid)
    (kept : Slot.Kept { slot with recvBuf := ring, reader := reader } (s.arrivedOn slot.streamId)
      (t.returnedOn slot.streamId)) : Kept t := by
  have arrived : ∀ sid, t.arrivedOn sid = s.arrivedOn sid := by
    intro sid
    rw [State.arrivedOn,logs.2,State.arrivedOn]
  refine old.change at_i used slots ⟨used,rfl,old.flags i slot at_i⟩ rest ?_ ?_ ?_ ?_
  · exact fun sid mem => logs.1 ▸ mem
  · exact fun ended => logs.1 ▸ old.ended i slot at_i used ended
  · exact fun sid apart => ⟨arrived sid,others sid apart⟩
  · rw [arrived]
    exact kept

end

theorem leave_eq (s : State) (i : Nat) (slot : Slot) (failed : Bool) (alive : slot.closing = false)
    (half : slot.writeClosed = false) : s.leave i slot failed = s.setSlot i { slot with reader := none } := by
  simp [State.leave,alive,half]

theorem Kept.pass (old : Kept s) (at_i : s.extraStreams[i]? = some slot) (used : slot.inUse) (short : r.Short)
    (same : slot.pending = r.pending) (fits : r.payloadLen = none → HeadFits r.got slot.recvBuf r.bufLen) :
    Kept (s.pass i slot r) := by
  obtain ⟨alive,half⟩ := old.flags i slot at_i
  obtain ⟨sound,_,gapless⟩ := old.kept i slot at_i used
  have takes := rawRecv_takes false slot r
  have after := afterRead_of_outcome sound (same ▸ gapless) takes (rawRecv_outcome alive sound short fits)
  unfold State.pass
  rw [old.alive]
  generalize rawRecv false slot r = read at takes after ⊢
  obtain ⟨left,taken,result⟩ := read
  obtain ⟨ring,rfl,_⟩ := takes
  cases result with
  | failed =>
    dsimp only
    rw [leave_eq s i { slot with recvBuf := ring } true alive half]
    exact old.settle at_i used rfl ⟨rfl,rfl,rfl,rfl⟩ ⟨rfl,rfl⟩ (fun _ _ => rfl) after
  | waiting reader => exact old.settle at_i used rfl ⟨rfl,rfl,rfl,rfl⟩ ⟨rfl,rfl⟩ (fun _ _ => rfl) after
  | message payload =>
    dsimp only
    rw [leave_eq _ i { slot with recvBuf := ring } false alive half]
    have returned := returnedOn_returns s slot.streamId payload
    refine old.settle at_i used rfl ⟨rfl,rfl,rfl,rfl⟩ ⟨rfl,rfl⟩ ?_ ?_
    · intro other apart
      refine (returned other).trans ?_
      rw [if_neg apart,append_nil]
    · have here := returned slot.streamId
      rw [if_pos rfl] at here
      exact here ▸ after

theorem Kept.recv (old : Kept s) {handle bufLen}
    (fits : ∀ pair ∈ s.usable handle, pair.2.reader = none → HeadFits [] pair.2.recvBuf bufLen) :
    Kept (s.recv handle bufLen) := by
  unfold State.recv
  cases found : s.usable handle with
  | none => exact old
  | some pair =>
    obtain ⟨grant,slot⟩ := pair
    obtain ⟨_,_,at_slot⟩ := usable_some found
    dsimp only
    split_ifs with refused
    · exact old.aside _ _ _ _
    · simp only [old.alive,Bool.false_or,Bool.or_eq_true,Bool.not_eq_true',not_or,isSome_iff_ne_none,ne_eq,
        not_not,Bool.not_eq_false] at refused
      obtain ⟨quiet,used⟩ := refused
      refine old.pass at_slot used (Nat.zero_lt_succ 3) ?_ (fun _ => fits (grant,slot) found quiet)
      simp [Slot.pending,quiet,Reader.pending]

theorem Kept.wake (old : Kept s) {io} (fits : ∀ slot ∈ s.extraStreams[i]?, ∀ r ∈ slot.reader,
      if io then r.payloadLen = none → HeadFits r.got slot.recvBuf r.bufLen else r.payloadLen = none ∧ r.got = []) :
    Kept (s.wake i io) := by
  unfold State.wake
  cases at_i : s.extraStreams[i]? with
  | none => exact old
  | some slot =>
    cases waits : slot.reader with
    | none => simpa only [waits] using old
    | some r =>
      have used : slot.inUse = true := by
        by_contra unused
        exact nomatch waits.symm.trans (old.idle i slot at_i (by simpa using unused))
      obtain ⟨alive,half⟩ := old.flags i slot at_i
      obtain ⟨sound,short,gapless⟩ := old.kept i slot at_i used
      have same : slot.pending = r.pending := by simp [Slot.pending,waits]
      have meets := fits slot at_i r waits
      simp only [waits]
      split_ifs with goes_on
      · simp only [Bool.and_eq_true] at goes_on
        rw [if_pos goes_on.1] at meets
        exact old.pass at_i used (short r waits) same meets
      · rw [leave_eq s i slot true alive half]
        have still : Gapless (s.arrivedOn slot.streamId) (s.returnedOn slot.streamId) [] slot := by
          cases io with
          | false =>
            have nothing : r.pending = [] := by simp [Reader.pending,meets.1,meets.2]
            rwa [same,nothing] at gapless
          | true =>
            simp only [Bool.true_and,Bool.not_eq_true,Bool.not_eq_false',Bool.and_eq_true,beq_iff_eq] at goes_on
            exact .inr ⟨goes_on.1,contents_eq_nil.mpr goes_on.2,rfl,gapless.isPrefix⟩
        have kept : Slot.Kept { slot with reader := none } (s.arrivedOn slot.streamId) (s.returnedOn slot.streamId) :=
          ⟨sound,(fun q absent => nomatch absent),still⟩
        exact old.settle at_i used rfl ⟨rfl,rfl,rfl,rfl⟩ ⟨rfl,rfl⟩ (fun _ _ => rfl) kept

theorem Kept.step (old : Kept s) (e : Event) (ordinary : Ordinary e) (fits : Fits s e) : Kept (step s e).1 := by
  cases e with
  | data sid data fin => exact old.data fits fin
  | streamOpen sid =>
    refine of_guard old ?_
    rintro ⟨_,theirs⟩
    refine old.streamOpen (fun own => ?_)
    have even : ∀ n : Int, n % 4 = 0 → n % 2 ≠ 1 := by omega
    exact absurd theirs (even sid own)
  | openStream => exact old.openStream
  | acceptStream => exact old.acceptStream
  | primaryHandle => exact old.primaryHandle
  | send handle data failedAfter => exact old.send handle data failedAfter
  | recv handle bufLen => exact old.recv fits
  | wake i io => exact old.wake fits
  | streamClose _ _ | close _ _ _ | reset _ | shutdown => exact ordinary.elim

/-- If what arrives fits the ring and the caller's buffer and no receive is broken off, what was returned on a stream
    is the beginning of what the peer sent. -/
theorem received_in_order (events : List Event) (ordinary : ∀ e ∈ events, Ordinary e)
    (fits : Along step Fits start events) : (final step start events).InOrder := by
  have each : Along step (fun s e => Ordinary e ∧ Fits s e) start events :=
    along_and_iff.mpr ⟨along_of_forall ordinary,fits⟩
  exact (final_invariant (I := Kept) (fun _ e old meets => old.step e meets.1 meets.2) kept_start each).inOrder

def inPieces : List Event :=
  [.data 1 [0,0] false,.acceptStream,.recv 0 4,.data 0 [0,0,0,1,9] false,.data 1 [0,2,7] false,.wake 0 true,
    .data 1 [8,0,0,0,0] true,.wake 0 true,.recv 0 4,.primaryHandle,.recv 1 1]

theorem in_pieces_in_order : (final step start inPieces).InOrder ∧
    (final step start inPieces).returned = [(1,[7,8]),(1,[]),(0,[9])] :=
  ⟨received_in_order inPieces (by decide) (by decide +kernel),by decide +kernel⟩

theorem slotReadN_enough (alive : slot.closing = false) (sound : slot.recvBuf.Sound) {want}
    (enough : want ≤ slot.recvBuf.used) : ∃ ring : RingBuf,
      slotReadN false slot 0 want = ({ slot with recvBuf := ring },slot.recvBuf.contents.take want,.filled) ∧
      ring.Sound ∧ ring.contents = slot.recvBuf.contents.drop want := by
  obtain ⟨popped,left,still⟩ := contents_pop sound want
  refine ⟨(slot.recvBuf.pop want).2,?_,still,left⟩
  have counted : want ≤ 0 + (slot.recvBuf.pop want).1.length := by
    rw [popped,length_take,length_contents]
    omega
  unfold slotReadN
  rw [if_neg (by simp [alive]),Nat.sub_zero]
  dsimp only
  rw [if_pos counted,popped]

theorem rawRecv_message (alive : slot.closing = false) (sound : slot.recvBuf.Sound) (handle : Nat) {bufLen} {more}
    (small : payload.length ≤ min bufLen pigeonMaxMsg)
    (there : values slot.recvBuf.contents = be 4 payload.length ++ payload ++ more) : ∃ ring taken,
      rawRecv false slot ⟨handle,bufLen,none,[]⟩ = ({ slot with recvBuf := ring },taken,.message payload) ∧
      ring.Sound ∧ values ring.contents = more := by
  have counted : slot.recvBuf.used = 4 + payload.length + more.length := by
    rw [← length_contents,← length_values,there,length_append,length_append,be_length]
  obtain ⟨ring,read,sound_ring,left⟩ := slotReadN_enough alive sound (show 4 ≤ slot.recvBuf.used by omega)
  have header : values ([] ++ slot.recvBuf.contents.take 4) = be 4 payload.length := by
    rw [nil_append,values,map_take,← values,there,append_assoc,take_left' (be_length 4 _)]
  have rest : values ring.contents = payload ++ more := by
    rw [left,values,map_drop,← values,there,append_assoc,drop_left' (be_length 4 _)]
  have below : payload.length < 256 ^ 4 := by
    have most : pigeonMaxMsg < 256 ^ 4 := by decide
    omega
  have length_eq : ofBe (values ([] ++ slot.recvBuf.contents.take 4)) = payload.length := by
    rw [header,ofBe_be,Nat.mod_eq_of_lt below]
  rw [rawRecv_header rfl read (length_eq ▸ small),length_eq]
  by_cases nothing : payload.length = 0
  · have empty : payload = [] := length_eq_zero_iff.mp nothing
    subst empty
    exact ⟨ring,_,if_pos rfl,sound_ring,rest⟩
  · rw [if_neg nothing]
    have counted_rest : ring.used = payload.length + more.length := by
      rw [← length_contents,← length_values,rest,length_append]
    have still_alive : Slot.closing { slot with recvBuf := ring } = false := alive
    obtain ⟨last,read_rest,sound_last,left_last⟩ := slotReadN_enough still_alive sound_ring
      (show payload.length ≤ ring.used by omega)
    have whole : values ([] ++ ring.contents.take payload.length) = payload := by
      rw [nil_append,values,map_take,← values,rest,take_left' rfl]
    refine ⟨last,slot.recvBuf.contents.take 4 ++ ring.contents.take payload.length,?_,sound_last,?_⟩
    · simp only [readPayload,length_nil,read_rest,whole]
    · rw [left_last,values,map_drop,← values,rest,drop_left' rfl]

/-- The peer's first stream is in the first slot and the first handle, with all the credit it started with. -/
structure Ready (s : State) (waiting arrived returned : Bytes) : Prop where
  alive : s.closed = false
  grants : s.grants = [⟨0,1,false,false⟩]
  ring : ∃ ring rest, s.extraStreams = Slot.holding 1 ring :: rest ∧ ring.Sound ∧
    values ring.contents = waiting
  finished : s.finished = []
  offset : s.maxOffset 1 = 256 * 1024 + (s.arrivedOn 1).length
  data : s.maxData = 1024 * 1024 + s.arrived.length
  arrived : s.arrivedOn 1 = arrived
  returned : s.returnedOn 1 = returned

theorem Ready.data_step {waiting} (ready : Ready s waiting arrived returned) (data : Bytes)
    (credit : data.length ≤ 256 * 1024) : Ready (s.data 1 data false)
      (waiting ++ data.take (ngtcp2RecvBuf - waiting.length)) (arrived ++ data) returned := by
  obtain ⟨ring,rest,slots,sound,contents⟩ := ready.ring
  have may : s.mayArrive 1 data.length := by
    refine ⟨by decide,by decide,fun own => absurd own (by decide),by simp [ready.finished],?_,?_⟩
    · rw [ready.offset]
      omega
    · rw [ready.data]
      omega
  have filled : s.data 1 data false = (s.fill 0 (arriving 1 data) false).extendMax 1 data false := by
    have found : findExtraSlot s.extraStreams 1 = some 0 := by
      simp [findExtraSlot,slots,findIdx?_cons,Slot.holding,Slot.fresh]
    simp only [State.data,if_pos may,State.recvStreamData,found]
    rfl
  have more : ((s.fill 0 (arriving 1 data) false).extendMax 1 data false).arrivedOn 1 = s.arrivedOn 1 ++ data := by
    rw [arrivedOn_extendMax,if_pos rfl]
    rfl
  rw [filled]
  refine { ready with ring := ⟨ring.push (arriving 1 data),rest,?_,sound_push sound _,?_⟩, offset := ?_, data := ?_, arrived := ?_ }
  · simp [State.extendMax,State.fill,slots,Slot.take,Slot.holding,Slot.fresh,Slot.free]
  · have space : ring.space = ngtcp2RecvBuf - waiting.length := by
      rw [Ring.space,← length_contents,← length_values,contents]
    rw [contents_push sound,values_append,contents,values,map_take,← values,values_arriving,space]
  · rw [more,length_append]
    simp [State.extendMax,State.fill,ready.offset]
    omega
  · simp [State.extendMax,State.fill,ready.data]
    omega
  · rw [more,ready.arrived]

theorem Ready.recv_step {more} (ready : Ready s (be 4 payload.length ++ payload ++ more) arrived returned)
    (bufLen : Nat) (small : payload.length ≤ min bufLen pigeonMaxMsg) :
    Ready (s.recv 0 bufLen) more arrived (returned ++ (be 4 payload.length ++ payload)) := by
  obtain ⟨ring,rest,slots,sound,contents⟩ := ready.ring
  have alive : (Slot.holding 1 ring).closing = false := rfl
  obtain ⟨left,taken,read,still,remains⟩ := rawRecv_message alive sound 0 small contents
  have received : s.recv 0 bufLen = ((s.returns 1 payload).setSlot 0 (Slot.holding 1 left)).call 0
      (1 :: taken.map Byte.stream) true := by
    have usable : s.usable 0 = some (⟨0,1,false,false⟩,Slot.holding 1 ring) := by
      simp [State.usable,ready.grants,slots]
    simp only [State.recv,usable,ready.alive]
    simp only [State.pass,ready.alive,read]
    rfl
  rw [received]
  refine { ready with ring := ⟨left,rest,?_,still,remains⟩, returned := ?_ }
  · simp [State.call,State.setSlot,State.returns,slots]
  · refine (returnedOn_returns s 1 payload 1).trans ?_
    rw [if_pos rfl,ready.returned]

def overflow (payload : Bytes) : List Event :=
  [.streamOpen 1,.acceptStream,.data 1 (be 4 65532 ++ payload) false,.data 1 [0,0,0,1,7] false,.recv 0 65532,
    .data 1 [0,0,0,0] false,.recv 0 65532]

theorem overflow_skips (full : payload.length = 65532) : ¬ (final step start (overflow payload)).InOrder := by
  have counted : (be 4 65532 ++ payload).length = ngtcp2RecvBuf := by
    rw [length_append,be_length,full]
    rfl
  have accepted : Ready (start.streamOpen 1).acceptStream [] [] [] :=
    ⟨rfl,rfl,⟨Ring.empty,_,rfl,sound_empty (by decide),rfl⟩,rfl,rfl,rfl,rfl,rfl⟩
  have first := accepted.data_step (be 4 65532 ++ payload) (by rw [counted]; decide)
  rw [nil_append,nil_append,take_of_length_le (by rw [counted]; rfl)] at first
  have dropped := first.data_step [0,0,0,1,7] (by decide)
  rw [counted,Nat.sub_self,take_zero,← full] at dropped
  have read := dropped.recv_step 65532 (by rw [full]; decide)
  have room := read.data_step [0,0,0,0] (by decide)
  have empty : [] ++ ([0,0,0,0] : Bytes).take (ngtcp2RecvBuf - ([] : Bytes).length) =
      be 4 ([] : Bytes).length ++ [] ++ [] := by decide
  rw [empty] at room
  have last := room.recv_step 65532 (by decide)
  rw [full,nil_append] at last
  intro order
  have beginning := order 1
  simp only [overflow,final_cons,final_nil,step] at beginning
  rw [if_pos (by decide),last.arrived,last.returned,append_assoc _ [0,0,0,1,7],prefix_append_right_inj] at beginning
  exact absurd beginning (by decide)

def headerTaken : List Event := [.data 1 [0,0,0,5,0,0,0,0,7] false,.acceptStream,.recv 0 4,.recv 0 4]

def brokenOff : List Event :=
  [.data 1 [0,0,0,1] false,.acceptStream,.recv 0 4,.wake 0 false,.data 1 [0,0,0,0] false,.recv 0 4]

theorem bytes_skipped : ¬ (final step start (overflow (replicate 65532 0))).InOrder ∧
      ¬ (final step start headerTaken).InOrder ∧ ¬ (final step start brokenOff).InOrder := by
  constructor
  · exact overflow_skips length_replicate
  constructor
  · exact fun order => absurd (order 1) (by decide)
  · exact fun order => absurd (order 1) (by decide)

end Pigeon.Ngtcp2
