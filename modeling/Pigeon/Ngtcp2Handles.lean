import Pigeon.Ngtcp2

/-!
Whose stream an operation on a handle of the ngtcp2 transport acts on. A receive that reports
the end of a stream gives the slot back while the application holds the handle, which then acts
on whichever stream has the slot (`lapsed_handle_acts_elsewhere`). Handles used in time act on
their own stream or fail (`handles_keep_their_stream`).
-/
namespace Pigeon.Ngtcp2
open Runs Rings List
open Octets (Bytes)
open Sequence (forall_set forall_mem_snoc getElem?_set_cases getElem?_set_found getElem?_append_some getElem?_snoc_cases)

def State.ActsOnOwn (s : State) : Prop :=
  ∀ call ∈ s.calls, ∃ grant ∈ s.grants[call.handle]?,
    (∀ sid ∈ call.acted, sid = grant.stream) ∧ (call.acted = [] → call.ok = false)
deriving Decidable

def InTime (s : State) : Event → Prop
  | .data sid _ _ => sid = primary → s.primaryLapsed = false
  | .send handle _ _ | .recv handle _ | .close handle _ _ | .reset handle =>
    ∀ grant ∈ s.grants[handle]?, grant.lapsed = false
  | _ => True

instance (s : State) : ∀ e, Decidable (InTime s e)
  | .data _ _ _ => inferInstanceAs (Decidable (_ → _))
  | .send handle _ _ | .recv handle _ | .close handle _ _ | .reset handle =>
    inferInstanceAs (Decidable (∀ grant ∈ s.grants[handle]?, _))
  | .streamOpen _ | .streamClose _ _ | .openStream | .acceptStream | .primaryHandle | .wake _ _ | .shutdown =>
    inferInstanceAs (Decidable True)

def Slot.Own (slot : Slot) : Prop :=
  slot.closing = false → slot.recvBuf.Sound ∧ ∀ b ∈ slot.recvBuf.contents, b.stream = slot.streamId

structure Unheld (s : State) (i : Nat) : Prop where
  handles : ∀ grant ∈ s.grants, grant.slot = i → grant.lapsed = true
  primary : s.primarySlotIdx = some i → s.primaryLapsed = true
  queue : i ∉ s.acceptQueue.contents

structure Bound (s : State) : Prop where
  granted : ∀ grant ∈ s.grants, grant.lapsed = false → Holds s.extraStreams grant.slot grant.stream
  bound : ∀ p, s.primarySlotIdx = some p → s.primaryLapsed = false → Holds s.extraStreams p primary
  unbound : s.primarySlotIdx = none → s.primaryLapsed = false
  legacy : s.recvBuf.Sound ∧ ∀ b ∈ s.recvBuf.contents, b.stream = primary
  own : ∀ (i : Nat) slot, s.extraStreams[i]? = some slot → slot.inUse = true → slot.Own
  queue : s.acceptQueue.Sound ∧ s.acceptQueue.contents.Nodup
  queued : ∀ i ∈ s.acceptQueue.contents, (∃ sid, Holds s.extraStreams i sid) ∧
    (∀ grant ∈ s.grants, grant.slot = i → grant.lapsed = true) ∧ (s.primarySlotIdx = some i → s.primaryLapsed = true)
  reading : ∀ (i : Nat) slot r, s.extraStreams[i]? = some slot → slot.reader = some r →
    slot.inUse = true ∧ i ∉ s.acceptQueue.contents ∧
      ∃ grant : Grant, s.grants[r.handle]? = some grant ∧ grant.stream = slot.streamId
  acts : s.ActsOnOwn

theorem bound_start : Bound start := by
  have slots : ∀ (i : Nat) slot, start.extraStreams[i]? = some slot → slot = Slot.free := by
    intro i slot found
    exact (mem_replicate.mp (mem_of_getElem? found)).2
  refine ⟨by simp [start],by simp [start],fun _ => rfl,⟨sound_empty (by decide),by simp [start]⟩,?_,
    ⟨sound_empty (by decide),by simp [start]⟩,by simp [start],?_,by simp [State.ActsOnOwn,start]⟩
  · intro i slot found used
    simp [slots i slot found,Slot.free] at used
  · intro i slot r found reads
    simp [slots i slot found,Slot.free] at reads

variable {s : State}

variable {i handle : Nat} {slot after : Slot} {sid : StreamId} {bytes : List Byte}

section
variable (old : Bound s) (at_i : s.extraStreams[i]? = some slot)
include old at_i

theorem Bound.unheld_of_free (free : slot.inUse = false) : Unheld s i := by
  have none_holds : ∀ sid, ¬ Holds s.extraStreams i sid := by
    rintro sid ⟨other,found,used,-⟩
    rw [at_i] at found
    cases found
    simp [free] at used
  refine ⟨?_,?_,?_⟩
  · intro grant mem same
    by_contra good
    exact none_holds _ (same ▸ old.granted grant mem (by simpa using good))
  · intro bound
    by_contra good
    exact none_holds _ (old.bound i bound (by simpa using good))
  · intro mem
    obtain ⟨sid,holds⟩ := (old.queued i mem).1
    exact none_holds sid holds

theorem Bound.set (used : after.inUse = slot.inUse)
    (same : after.streamId = slot.streamId) (own : after.inUse → after.Own)
    (reads : ∀ r, after.reader = some r → after.inUse ∧ i ∉ s.acceptQueue.contents ∧
      ∃ grant : Grant, s.grants[r.handle]? = some grant ∧ grant.stream = after.streamId) :
    Bound (s.setSlot i after) := by
  refine ⟨?_,?_,old.unbound,old.legacy,?_,old.queue,?_,?_,old.acts⟩
  · intro grant mem good
    exact (holds_set_iff at_i used same).mpr (old.granted grant mem good)
  · intro p bound good
    exact (holds_set_iff at_i used same).mpr (old.bound p bound good)
  · exact forall_set own (fun j other _ => old.own j other)
  · intro j mem
    obtain ⟨⟨sid,holds⟩,rest⟩ := old.queued j mem
    exact ⟨⟨sid,(holds_set_iff at_i used same).mpr holds⟩,rest⟩
  · intro j other r found waits
    rcases getElem?_set_cases found with ⟨rfl,rfl⟩ | ⟨_,before⟩
    · exact reads r waits
    · exact old.reading j other r before waits

theorem Bound.alloc (free : slot.inUse = false)
    (own : after.Own) (quiet : after.reader = none) : Bound (s.setSlot i after) := by
  have unheld := old.unheld_of_free at_i free
  refine ⟨?_,?_,old.unbound,old.legacy,?_,old.queue,?_,?_,old.acts⟩
  · intro grant mem good
    refine (old.granted grant mem good).set_ne ?_
    rintro rfl
    simp [unheld.handles grant mem rfl] at good
  · intro p bound good
    refine (old.bound p bound good).set_ne ?_
    rintro rfl
    exact nomatch (unheld.primary bound).symm.trans good
  · exact forall_set (fun _ => own) (fun j other _ => old.own j other)
  · intro j mem
    obtain ⟨⟨sid,holds⟩,rest⟩ := old.queued j mem
    refine ⟨⟨sid,holds.set_ne ?_⟩,rest⟩
    rintro rfl
    exact unheld.queue mem
  · intro j other r found waits
    rcases getElem?_set_cases found with ⟨_,rfl⟩ | ⟨_,before⟩
    · simp [quiet] at waits
    · exact old.reading j other r before waits

end

theorem mem_lapse {grants : List Grant} {grant : Grant} (mem : grant ∈ grants.map (Grant.lapse i)) :
    grant.lapsed ∨ grant.slot ≠ i ∧ grant ∈ grants := by
  obtain ⟨g,inside,rfl⟩ := mem_map.mp mem
  by_cases same : g.slot = i
  · simp [Grant.lapse,same]
  · have kept : g.lapse i = g := by simp [Grant.lapse,beq_eq_false_iff_ne.mpr same]
    rw [kept]
    exact .inr ⟨same,inside⟩

theorem stream_of_map {grants : List Grant} {f : Grant → Grant} (keeps : ∀ g, (f g).stream = g.stream) {n : Nat}
    (before : ∃ grant : Grant, grants[n]? = some grant ∧ grant.stream = sid) :
    ∃ grant : Grant, (grants.map f)[n]? = some grant ∧ grant.stream = sid := by
  obtain ⟨grant,found,rfl⟩ := before
  exact ⟨f grant,by simp [found],keeps grant⟩

theorem actsOnOwn_map {f : Grant → Grant} (keeps : ∀ g, (f g).stream = g.stream) (acts : s.ActsOnOwn) :
    State.ActsOnOwn { s with grants := s.grants.map f } := by
  intro call mem
  obtain ⟨grant,found,streams,failed⟩ := acts call mem
  exact ⟨f grant,by simp [Option.mem_def.mp found],by simpa [keeps] using streams,failed⟩

section
variable (old : Bound s)
include old

theorem Bound.release (at_i : s.extraStreams[i]? = some slot) (quiet : slot.reader = none)
    (unqueued : i ∉ s.acceptQueue.contents) : Bound (s.release i) := by
  have slots : (s.release i).extraStreams = s.extraStreams.set i { slot with inUse := false } := by
    simp only [State.release]
    rw [modify_eq_set_getElem?,at_i]
    rfl
  refine ⟨?_,?_,?_,old.legacy,?_,old.queue,?_,?_,actsOnOwn_map (fun _ => rfl) old.acts⟩
  · intro grant mem good
    rcases mem_lapse mem with lapsed | ⟨other,before⟩
    · simp [lapsed] at good
    · rw [slots]
      exact (old.granted grant before good).set_ne (Ne.symm other)
  · intro p bound good
    simp only [State.release,Bool.or_eq_false_iff,beq_eq_false_iff_ne,ne_eq] at bound good
    rw [slots]
    refine (old.bound p bound good.1).set_ne ?_
    rintro rfl
    exact good.2 bound
  · intro unbound
    simp only [State.release] at unbound ⊢
    simp [old.unbound unbound,unbound]
  · intro j other found inUse
    rw [slots] at found
    rcases getElem?_set_cases found with ⟨_,rfl⟩ | ⟨_,before⟩
    · simp at inUse
    · exact old.own j other before inUse
  · intro j mem
    obtain ⟨⟨sid,holds⟩,handles,first⟩ := old.queued j mem
    have other : i ≠ j := by
      rintro rfl
      exact unqueued mem
    refine ⟨⟨sid,slots ▸ holds.set_ne other⟩,?_,?_⟩
    · intro grant inside same
      rcases mem_lapse inside with lapsed | ⟨_,before⟩
      · exact lapsed
      · exact handles grant before same
    · intro bound
      simp [State.release,first bound]
  · intro j other r found waits
    rw [slots] at found
    rcases getElem?_set_cases found with ⟨_,rfl⟩ | ⟨_,before⟩
    · simp [quiet] at waits
    · obtain ⟨inUse,out,grant⟩ := old.reading j other r before waits
      exact ⟨inUse,out,stream_of_map (f := Grant.lapse i) (fun _ => rfl) grant⟩

theorem Bound.call {acted ok grant}
    (given : s.grants[handle]? = some grant) (streams : ∀ sid ∈ acted, sid = grant.stream)
    (failed : acted = [] → ok = false) : Bound (s.call handle acted ok) := by
  refine { old with acts := ?_ }
  exact forall_mem_snoc.mpr ⟨old.acts,⟨grant,given,streams,failed⟩⟩

theorem Bound.failed {grant} (given : s.grants[handle]? = some grant) : Bound (s.call handle [] false) :=
  old.call given (by simp) (fun _ => rfl)

theorem Bound.aside (closed : Bool) (opened : Nat) (finished : List StreamId) (maxOffset : StreamId → Nat)
    (maxData : Nat) (arrived : List Byte) (returned : List (StreamId × Bytes)) (written : List Written) :
    Bound { s with
      closed := closed, opened := opened, finished := finished, maxOffset := maxOffset, maxData := maxData,
      arrived := arrived, returned := returned, written := written } :=
  { old with }

theorem Bound.write (what : Written) : Bound (s.write what) := old.aside _ _ _ _ _ _ _ _

theorem Bound.retire (grant : Grant) : Bound (s.retire grant) := by
  have back : ∀ g ∈ (s.retire grant).grants, ∃ before ∈ s.grants, before.slot = g.slot ∧ before.stream = g.stream ∧
      before.lapsed = g.lapsed := by
    intro g mem
    obtain ⟨before,inside,rfl⟩ := mem_map.mp mem
    exact ⟨before,inside,rfl,rfl,rfl⟩
  refine ⟨?_,old.bound,old.unbound,old.legacy,old.own,old.queue,?_,?_,actsOnOwn_map (fun _ => rfl) old.acts⟩
  · intro g mem good
    obtain ⟨before,inside,slot,stream,lapsed⟩ := back g mem
    exact slot ▸ stream ▸ old.granted before inside (lapsed.trans good)
  · intro i mem
    obtain ⟨holds,handles,first⟩ := old.queued i mem
    refine ⟨holds,?_,first⟩
    intro g inside at_i
    obtain ⟨before,earlier,slot,_,lapsed⟩ := back g inside
    exact lapsed ▸ handles before earlier (slot.trans at_i)
  · intro i slot r found waits
    obtain ⟨inUse,out,given⟩ := old.reading i slot r found waits
    exact ⟨inUse,out,stream_of_map (f := Grant.retire grant) (fun _ => rfl) given⟩

theorem Bound.grant {lapsed : Bool}
    (good : lapsed = false → Holds s.extraStreams i sid ∧ i ∉ s.acceptQueue.contents) :
    Bound (s.grant i sid lapsed) := by
  refine ⟨?_,old.bound,old.unbound,old.legacy,old.own,old.queue,?_,?_,?_⟩
  · intro grant mem fresh
    rcases Sequence.mem_snoc.mp mem with before | rfl
    · exact old.granted grant before fresh
    · exact (good fresh).1
  · intro j mem
    obtain ⟨holds,handles,first⟩ := old.queued j mem
    refine ⟨holds,?_,first⟩
    intro grant inside same
    rcases Sequence.mem_snoc.mp inside with before | rfl
    · exact handles grant before same
    · by_contra fresh
      have at_i : i = j := same
      exact (good (by simpa using fresh)).2 (at_i ▸ mem)
  · intro j slot r found waits
    obtain ⟨inUse,out,grant,given,stream⟩ := old.reading j slot r found waits
    exact ⟨inUse,out,grant,getElem?_append_some given,stream⟩
  · intro call mem
    obtain ⟨grant,given,rest⟩ := old.acts call mem
    exact ⟨grant,getElem?_append_some given,rest⟩

end

theorem Bound.enqueue (old : Bound s) (holds : Holds s.extraStreams i sid) (unheld : Unheld s i)
    (quiet : ∀ slot : Slot, s.extraStreams[i]? = some slot → slot.reader = none) :
    Bound { s with acceptQueue := s.acceptQueue.push [i] } := by
  have contents := contents_push old.queue.1 [i]
  have part : ∀ j ∈ (s.acceptQueue.push [i]).contents, j ∈ s.acceptQueue.contents ∨ j = i := by
    intro j mem
    rw [contents] at mem
    exact (mem_append.mp mem).imp_right (fun last => mem_singleton.mp (mem_of_mem_take last))
  refine { old with queue := ⟨sound_push old.queue.1 [i],?_⟩, queued := ?_, reading := ?_ }
  · rw [contents]
    refine Nodup.append old.queue.2 ((nodup_singleton i).sublist (take_sublist _ _)) ?_
    intro j before last
    exact unheld.queue (mem_singleton.mp (mem_of_mem_take last) ▸ before)
  · intro j mem
    rcases part j mem with before | rfl
    · exact old.queued j before
    · exact ⟨⟨sid,holds⟩,unheld.handles,unheld.primary⟩
  · intro j slot r found waits
    obtain ⟨inUse,out,given⟩ := old.reading j slot r found waits
    refine ⟨inUse,?_,given⟩
    intro mem
    rcases part j mem with before | rfl
    · exact out before
    · simp [quiet slot found] at waits

theorem own_take (own : slot.Own) (same : ∀ b ∈ bytes, b.stream = slot.streamId) (fin : Bool) :
    (slot.take bytes fin).Own := by
  intro alive
  obtain ⟨sound,mine⟩ := own alive
  refine ⟨sound_push sound bytes,?_⟩
  intro b mem
  simp only [Slot.take,contents_push sound] at mem
  rcases mem_append.mp mem with before | last
  · exact mine b before
  · exact same b (mem_of_mem_take last)

theorem own_fresh (sid : StreamId) : (Slot.fresh sid).Own := by
  intro _
  exact ⟨sound_empty (by decide),by simp [Slot.fresh,Slot.free]⟩

section
variable (old : Bound s)
include old

theorem Bound.fill (holds : Holds s.extraStreams i sid) (same : ∀ b ∈ bytes, b.stream = sid) (fin : Bool) :
    Bound (s.fill i bytes fin) := by
  obtain ⟨slot,at_i,used,rfl⟩ := holds
  rw [fill_eq at_i]
  refine old.set at_i rfl rfl (fun _ => own_take (old.own i slot at_i used) same fin) ?_
  intro r waits
  exact old.reading i slot r at_i waits

theorem Bound.incoming {t} (made : s.incoming sid = some (t,i)) : Bound t ∧ Holds t.extraStreams i sid := by
  obtain ⟨slot,at_i,unused,rfl⟩ := incoming_some made
  have unheld := old.unheld_of_free at_i unused
  have holds : Holds (s.extraStreams.set i (Slot.fresh sid)) i sid := holds_set_self at_i rfl
  refine ⟨(old.alloc at_i unused (own_fresh sid) rfl).enqueue holds { unheld with } ?_,holds⟩
  intro other found
  rcases getElem?_set_cases found with ⟨_,rfl⟩ | ⟨differs,_⟩
  · rfl
  · exact absurd rfl differs

theorem Bound.recvStreamData (inTime : sid = primary → s.primaryLapsed = false) (same : ∀ b ∈ bytes, b.stream = sid)
    (fin : Bool) : Bound (s.recvStreamData sid bytes fin) := by
  unfold State.recvStreamData
  by_cases first : sid = primary
  · rw [if_pos first]
    cases bound : s.primarySlotIdx with
    | some p => exact old.fill (first ▸ old.bound p bound (inTime first)) same fin
    | none =>
      obtain ⟨sound,mine⟩ := old.legacy
      have all_mine : ∀ b ∈ (s.recvBuf.push bytes).contents, b.stream = primary := by
        intro b mem
        rw [contents_push sound] at mem
        rcases mem_append.mp mem with before | last
        · exact mine b before
        · exact (same b (mem_of_mem_take last)).trans first
      have next : Bound { s with recvBuf := s.recvBuf.push bytes } := { old with legacy := ⟨sound_push sound bytes,all_mine⟩ }
      simpa only [bound] using next
  · rw [if_neg first]
    cases found : findExtraSlot s.extraStreams sid with
    | some i => exact old.fill (findExtraSlot_some found) same fin
    | none =>
      cases made : s.incoming sid with
      | none => exact old
      | some result =>
        obtain ⟨t,i⟩ := result
        obtain ⟨next,holds⟩ := old.incoming made
        exact next.fill holds same fin

theorem Bound.data (inTime : sid = primary → s.primaryLapsed = false) (data : Bytes) (fin : Bool) :
    Bound (s.data sid data fin) := by
  unfold State.data
  refine of_guard old ?_
  intro _
  have same : ∀ b ∈ arriving sid data, b.stream = sid := by
    intro b mem
    obtain ⟨value,_,rfl⟩ := mem_map.mp mem
    rfl
  exact (old.recvStreamData inTime same fin).aside _ _ _ _ _ _ _ _

theorem Bound.streamOpen (sid : StreamId) : Bound (s.streamOpen sid) := by
  unfold State.streamOpen
  by_cases first : sid = primary
  · rw [if_pos first]
    exact old
  · rw [if_neg first]
    cases findExtraSlot s.extraStreams sid with
    | some _ => exact old
    | none =>
      cases made : s.incoming sid with
      | none => exact old
      | some result => exact (old.incoming made).1

theorem Bound.streamClose (sid : StreamId) (appError : Bool) : Bound (s.streamClose sid appError) := by
  unfold State.streamClose
  cases found : findExtraSlot s.extraStreams sid with
  | none => exact old
  | some i =>
    obtain ⟨slot,at_i,used,_⟩ := findExtraSlot_some found
    have slots : s.extraStreams.modify i (·.streamClose appError) =
        s.extraStreams.set i (slot.streamClose appError) := by
      rw [modify_eq_set_getElem?,at_i]
      rfl
    simp only [slots]
    have same : (slot.streamClose appError).inUse = slot.inUse ∧ (slot.streamClose appError).streamId = slot.streamId ∧
        (slot.streamClose appError).reader = slot.reader := by
      unfold Slot.streamClose
      split_ifs <;> exact ⟨rfl,rfl,rfl⟩
    refine old.set at_i same.1 same.2.1 ?_ ?_
    · intro _ alive
      unfold Slot.streamClose at alive ⊢
      split_ifs at alive ⊢ with cancelled
      exact old.own i slot at_i used alive
    · intro r waits
      rw [same.1,same.2.1]
      exact old.reading i slot r at_i (same.2.2 ▸ waits)

theorem Bound.openStream : Bound s.openStream := by
  unfold State.openStream
  by_cases closed : s.closed = true
  · rw [if_pos closed]
    exact old
  · rw [if_neg closed]
    have next : Bound { s with opened := s.opened + 1 } := old.aside _ _ _ _ _ _ _ _
    simp only [State.allocExtraSlot]
    cases free : freeSlot s.extraStreams with
    | none => exact next
    | some i =>
      obtain ⟨slot,at_i,unused⟩ := freeSlot_some free
      have unheld := old.unheld_of_free at_i unused
      refine (next.alloc at_i unused (own_fresh _) rfl).grant ?_
      intro _
      have holds : Holds (s.extraStreams.set i (Slot.fresh (4 * s.opened))) i (4 * s.opened) := holds_set_self at_i rfl
      exact ⟨holds,unheld.queue⟩

theorem Bound.acceptStream : Bound s.acceptStream := by
  unfold State.acceptStream
  by_cases closed : s.closed = true
  · rw [if_pos closed]
    exact old
  · rw [if_neg closed]
    obtain ⟨taken,left,still⟩ := contents_pop old.queue.1 1
    split
    · rename_i i rest popped
      rw [popped] at taken left still
      have queue : s.acceptQueue.contents = i :: rest.contents := by
        rw [← take_append_drop 1 s.acceptQueue.contents,← taken,← left]
        rfl
      have fresh := old.queue.2
      rw [queue,nodup_cons] at fresh
      have part : ∀ j ∈ rest.contents, j ∈ s.acceptQueue.contents := by
        intro j mem
        rw [queue]
        exact mem_cons_of_mem i mem
      have next : Bound { s with acceptQueue := rest } := by
        refine { old with queue := ⟨still,fresh.2⟩, queued := fun j mem => old.queued j (part j mem), reading := ?_ }
        intro j slot r found waits
        obtain ⟨inUse,out,given⟩ := old.reading j slot r found waits
        exact ⟨inUse,fun mem => out (part j mem),given⟩
      have head : i ∈ s.acceptQueue.contents := by simp [queue]
      obtain ⟨sid,slot,at_i,used,_⟩ := (old.queued i head).1
      simp only [at_i]
      exact next.grant (fun _ => ⟨⟨slot,at_i,used,rfl⟩,fresh.1⟩)
    · exact old

theorem Bound.primaryHandle : Bound s.primaryHandle := by
  unfold State.primaryHandle
  by_cases closed : s.closed = true
  · rw [if_pos closed]
    exact old
  · rw [if_neg closed]
    cases bound : s.primarySlotIdx with
    | some p =>
      refine old.grant ?_
      intro good
      refine ⟨old.bound p bound good,?_⟩
      intro mem
      exact nomatch ((old.queued p mem).2.2 bound).symm.trans good
    | none =>
      cases free : freeSlot s.extraStreams with
      | none => exact old
      | some i =>
        obtain ⟨slot,at_i,unused⟩ := freeSlot_some free
        have unheld := old.unheld_of_free at_i unused
        obtain ⟨sound,mine⟩ := old.legacy
        have room : (Ring.empty : RingBuf).used + s.recvBuf.used ≤ ngtcp2RecvBuf := by
          simpa [Ring.empty] using sound.fits
        obtain ⟨sound_left,none_left,sound_moved,moved⟩ :=
          migrate_moves sound (sound_empty (by decide)) room (Nat.le_refl _)
        generalize migrate s.recvBuf.used s.recvBuf Ring.empty = result at *
        rw [contents_empty,nil_append] at moved
        have own : (Slot.holding primary result.2).Own := fun _ => ⟨sound_moved,fun b mem => mine b (moved ▸ mem)⟩
        have next := old.alloc at_i unused own rfl
        have holds : Holds (s.extraStreams.set i (Slot.holding primary result.2)) i primary := holds_set_self at_i rfl
        have bound : Bound (s.bindPrimary i result) := by
          refine { next with bound := ?_, unbound := ?_, legacy := ⟨sound_left,by simp [State.bindPrimary,none_left]⟩, queued := ?_ }
          · rintro p ⟨⟩ _
            exact holds
          · intro absent
            cases absent
          · intro j mem
            refine ⟨(next.queued j mem).1,(next.queued j mem).2.1,?_⟩
            rintro ⟨⟩
            exact absurd mem unheld.queue
        exact bound.grant (fun _ => ⟨holds,unheld.queue⟩)

theorem Bound.live {grant} (found : s.usable handle = some (grant,slot))
    (inTime : ∀ g ∈ s.grants[handle]?, g.lapsed = false) :
    s.grants[handle]? = some grant ∧ s.extraStreams[grant.slot]? = some slot ∧ slot.inUse ∧
      slot.streamId = grant.stream ∧ grant.slot ∉ s.acceptQueue.contents := by
  obtain ⟨given,_,at_slot⟩ := usable_some found
  have good : grant.lapsed = false := inTime grant given
  have mem : grant ∈ s.grants := mem_of_getElem? given
  obtain ⟨other,found_other,used,stream⟩ := old.granted grant mem good
  rw [at_slot] at found_other
  cases found_other
  refine ⟨given,at_slot,used,stream,?_⟩
  intro queued
  exact nomatch ((old.queued _ queued).2.1 grant mem rfl).symm.trans good

theorem Bound.send (inTime : ∀ g ∈ s.grants[handle]?, g.lapsed = false) (data : Bytes) (failedAfter : Option Nat) :
    Bound (s.send handle data failedAfter) := by
  unfold State.send
  cases found : s.usable handle with
  | none => exact old
  | some pair =>
    obtain ⟨grant,slot⟩ := pair
    obtain ⟨given,_,_,stream,_⟩ := old.live found inTime
    dsimp only
    split_ifs
    · exact old.failed given
    · exact (old.write _).call given (by simp [stream]) (by simp)

theorem Bound.flag (at_i : s.extraStreams[i]? = some slot) (used : slot.inUse)
    (same : after = { slot with closing := after.closing, writeClosed := after.writeClosed })
    (keeps : after.closing = false → slot.closing = false) : Bound (s.setSlot i after) := by
  have own := old.own i slot at_i used
  rw [same]
  refine old.set at_i rfl rfl (fun _ alive => own (keeps alive)) ?_
  intro r waits
  exact old.reading i slot r at_i waits

theorem Bound.close (inTime : ∀ g ∈ s.grants[handle]?, g.lapsed = false) (wrote flushed : Bool) :
    Bound (s.close handle wrote flushed) := by
  unfold State.close
  cases found : s.usable handle with
  | none => exact old
  | some pair =>
    obtain ⟨grant,slot⟩ := pair
    obtain ⟨given,at_slot,used,stream,_⟩ := old.live found inTime
    dsimp only
    refine Bound.retire ?_ grant
    split_ifs
    · exact old.failed given
    · have flagged : Bound (s.setSlot grant.slot { slot with writeClosed := true }) := old.flag at_slot used rfl id
      exact (flagged.write _).call given (by simp [stream]) (by simp)
    · exact old.call given (by simp [stream]) (by simp)

theorem Bound.reset (inTime : ∀ g ∈ s.grants[handle]?, g.lapsed = false) : Bound (s.reset handle) := by
  unfold State.reset
  cases found : s.usable handle with
  | none => exact old
  | some pair =>
    obtain ⟨grant,slot⟩ := pair
    obtain ⟨given,at_slot,used,stream,unqueued⟩ := old.live found inTime
    dsimp only
    refine Bound.retire ?_ grant
    have flagged : Bound (s.setSlot grant.slot { slot with closing := true }) := old.flag at_slot used rfl nofun
    have called : Bound (((s.setSlot grant.slot { slot with closing := true }).write (.shutdown slot.streamId)).call
        handle [slot.streamId] true) := (flagged.write _).call given (by simp [stream]) (by simp)
    split_ifs with _ quiet
    · exact old.failed given
    · refine called.release (getElem?_set_found at_slot) ?_ unqueued
      simpa using quiet
    · exact called

theorem Bound.leave {taken} (at_i : s.extraStreams[i]? = some slot) (used : slot.inUse)
    (unqueued : i ∉ s.acceptQueue.contents) (takes : Takes slot after taken) (failed : Bool) :
    Bound (s.leave i after failed) := by
  obtain ⟨ring,rfl,_,left⟩ := takes
  have own : Slot.Own { slot with recvBuf := ring, reader := none } := by
    intro alive
    obtain ⟨sound,mine⟩ := old.own i slot at_i used alive
    obtain ⟨still,all⟩ := left sound
    exact ⟨still,fun b mem => mine b (all ▸ mem_append_right taken mem)⟩
  have next : Bound (s.setSlot i { slot with recvBuf := ring, reader := none }) :=
    old.set at_i rfl rfl (fun _ => own) (fun r waits => nomatch waits)
  unfold State.leave
  dsimp only
  split_ifs
  · exact next.release (getElem?_set_found at_i) rfl unqueued
  · exact next

end

theorem grant_kept (i : Nat) (slot : Slot) (failed : Bool) {n : Nat} {grant} (given : s.grants[n]? = some grant) :
    ∃ other : Grant, (s.leave i slot failed).grants[n]? = some other ∧ other.stream = grant.stream := by
  unfold State.leave
  dsimp only
  split_ifs
  · exact stream_of_map (f := Grant.lapse i) (fun _ => rfl) ⟨grant,given,rfl⟩
  · exact ⟨grant,given,rfl⟩

section
variable (old : Bound s) (at_i : s.extraStreams[i]? = some slot) (used : slot.inUse)
  (unqueued : i ∉ s.acceptQueue.contents)
include old at_i used unqueued

theorem Bound.left {taken grant} (takes : Takes slot after taken) (given : s.grants[handle]? = some grant)
    {failed ok acted} (streams : ∀ sid ∈ acted, sid = grant.stream) (reports : acted = [] → ok = false) :
    Bound ((s.leave i after failed).call handle acted ok) := by
  obtain ⟨other,kept,same⟩ := grant_kept i after failed given
  exact (old.leave at_i used unqueued takes failed).call kept (by simpa [same] using streams) reports

theorem Bound.pass {r grant} (given : s.grants[r.handle]? = some grant)
    (stream : slot.streamId = grant.stream) : Bound (s.pass i slot r) := by
  have takes := rawRecv_takes s.closed slot r
  unfold State.pass
  cases result : rawRecv s.closed slot r with
  | mk after rest =>
    obtain ⟨taken,outcome⟩ := rest
    rw [result] at takes
    have streams : ∀ sid ∈ slot.streamId :: taken.map Byte.stream, sid = grant.stream := by
      rintro sid (_ | ⟨_,mem⟩)
      · exact stream
      · obtain ⟨b,inside,rfl⟩ := mem_map.mp mem
        obtain ⟨ring,_,nothing,left⟩ := takes
        by_cases closing : slot.closing = true
        · have empty : taken = [] := nothing closing
          simp [empty] at inside
        · obtain ⟨sound,mine⟩ := old.own i slot at_i used (by simpa using closing)
          exact (mine b ((left sound).2 ▸ mem_append_left ring.contents inside)).trans stream
    cases outcome with
    | failed => exact old.left at_i used unqueued takes given streams nofun
    | message payload =>
      have logged : Bound (s.returns slot.streamId payload) := old.aside _ _ _ _ _ _ _ _
      exact logged.left at_i used unqueued takes given streams nofun
    | waiting reader =>
      have same := rawRecv_waiting result
      obtain ⟨ring,rfl,_,left⟩ := takes
      have next : Bound (s.setSlot i { slot with recvBuf := ring, reader := some reader }) := by
        refine old.set at_i rfl rfl ?_ ?_
        · intro _ alive
          obtain ⟨sound,mine⟩ := old.own i slot at_i used alive
          obtain ⟨still,all⟩ := left sound
          exact ⟨still,fun b mem => mine b (all ▸ mem_append_right taken mem)⟩
        · rintro r' ⟨⟩
          exact ⟨used,unqueued,grant,same ▸ given,stream.symm⟩
      exact next.call given streams nofun

end

theorem Bound.recv (old : Bound s) (inTime : ∀ g ∈ s.grants[handle]?, g.lapsed = false) (bufLen : Nat) :
    Bound (s.recv handle bufLen) := by
  unfold State.recv
  cases found : s.usable handle with
  | none => exact old
  | some pair =>
    obtain ⟨grant,slot⟩ := pair
    obtain ⟨given,at_slot,used,stream,unqueued⟩ := old.live found inTime
    dsimp only
    split_ifs
    · exact old.failed given
    · exact old.pass at_slot used unqueued given stream

theorem Bound.wake (old : Bound s) (i : Nat) (io : Bool) : Bound (s.wake i io) := by
  unfold State.wake
  cases at_i : s.extraStreams[i]? with
  | none => exact old
  | some slot =>
    cases waits : slot.reader with
    | none => simpa only [waits] using old
    | some r =>
      obtain ⟨used,unqueued,grant,given,stream⟩ := old.reading i slot r at_i waits
      simp only [waits]
      split_ifs
      · exact old.pass at_i used unqueued given stream.symm
      · exact old.left at_i used unqueued (Takes.refl slot) given (by simp) (fun _ => rfl)

theorem Bound.step (old : Bound s) (e : Event) (inTime : InTime s e) : Bound (step s e).1 := by
  cases e with
  | data sid data fin => exact old.data inTime data fin
  | streamOpen sid => exact of_guard old (fun _ => old.streamOpen sid)
  | streamClose sid appError => exact old.streamClose sid appError
  | openStream => exact old.openStream
  | acceptStream => exact old.acceptStream
  | primaryHandle => exact old.primaryHandle
  | send handle data failedAfter => exact old.send inTime data failedAfter
  | recv handle bufLen => exact old.recv inTime bufLen
  | wake i io => exact old.wake i io
  | close handle wrote flushed => exact old.close inTime wrote flushed
  | reset handle => exact old.reset inTime
  | shutdown => exact old.aside _ _ _ _ _ _ _ _

/-- If no handle is used, and no byte of the primary stream arrives, after the slot was given back, every operation
    acts on its handle's stream or fails. -/
theorem handles_keep_their_stream (events : List Event) (inTime : Along step InTime start events) :
    (final step start events).ActsOnOwn :=
  (final_invariant (I := Bound) (fun _ e old meets => old.step e meets) bound_start inTime).acts

def inTurn : List Event :=
  [.openStream,.data 1 [0,0,0,1,7] false,.acceptStream,.recv 1 8,.primaryHandle,.data 0 [0,0,0] false,.recv 2 8,
    .data 0 [0] true,.wake 2 true,.send 0 [5] none,.reset 0,.openStream,.send 3 [6] none,.close 1 true true]

theorem in_turn_keeps : (final step start inTurn).ActsOnOwn ∧
    (final step start inTurn).calls.map (fun call => (call.handle,call.acted)) =
      [(1,[1,1,1,1,1,1]),(2,[0,0,0,0]),(2,[0,0]),(0,[4]),(0,[4]),(3,[8]),(1,[1])] :=
  ⟨handles_keep_their_stream inTurn (by decide +kernel),by decide +kernel⟩

def resetByPeer : List Event := [.openStream,.streamClose 4 true,.recv 0 8,.openStream,.send 0 [7] none]

def primaryReset : List Event :=
  [.primaryHandle,.streamClose 0 true,.recv 0 8,.openStream,.primaryHandle,.reset 2]

theorem lapsed_handle_acts_elsewhere :
    ¬ (final step start resetByPeer).ActsOnOwn ∧ ¬ (final step start primaryReset).ActsOnOwn := by
  decide +kernel

end Pigeon.Ngtcp2
