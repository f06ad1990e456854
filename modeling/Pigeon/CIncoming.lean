import Pigeon.CSession
import Pigeon.Custody

/-!
Accepting the streams that the peer opens, in the C library
(`pigeon_session_accept_incoming_stream` in `listener.c`). A stream is returned, parked or
closed, once (`Consistent.kept`). Names are compared as C strings (`named_iff`), and streams of
one name come in order if none is parked in front of an earlier one (`in_order`).
-/
namespace Pigeon.CIncoming
open Octets Runs Sequence Custody Framing List Option
open CSession (findIncoming pigeonMaxNameLen pigeonMaxStreamHeader pigeonSessionMaxIncoming)

/-- A slot of `incoming` that is in use. -/
structure Slot where
  handle : Nat
  name : Bytes

structure State where
  incoming : List (Option Slot)
  /-- The name that the call in progress waits for. -/
  waiting : Option Bytes
  /-- The name in the header of each stream that was taken from the transport, `none` for a header that could not be
      read. -/
  taken : List (Option Bytes)
  /-- The handles returned, with the name that was asked for. -/
  returned : List (Nat × Bytes)
  closed : List Nat

def start : State := ⟨List.replicate pigeonSessionMaxIncoming none,none,[],[],[]⟩

inductive Event
  /-- The function is called. -/
  | call (name : Bytes)
  /-- `accept_stream` yields a stream; the header is `none` if `recv_on_stream` fails on it. -/
  | arrives (header : Option Bytes)
  /-- `accept_stream` fails. -/
  | fails

def readName : Option Bytes → Option Bytes
  | none => none
  | some header =>
    if pigeonMaxStreamHeader < header.length then none else wireStreamHeaderDecode header pigeonMaxNameLen

def State.names (s : State) : List (Option Bytes) := s.incoming.map (Option.map Slot.name)

def State.give (s : State) (handle : Nat) (name : Bytes) : State :=
  { s with waiting := none, returned := s.returned ++ [(handle,cstr name)] }

def State.call (s : State) (name : Bytes) : State :=
  match findIncoming s.names name with
  | some i =>
    match s.incoming[i]? with
    | some (some slot) => { s with incoming := s.incoming.set i none }.give slot.handle name
    | _ => s
  | none => { s with waiting := some name }

def State.park (s : State) (handle : Nat) (name : Bytes) : State :=
  match s.incoming.findIdx? Option.isNone with
  | some i => { s with incoming := s.incoming.set i (some ⟨handle,name⟩) }
  | none => { s with closed := handle :: s.closed }

def State.arrives (s : State) (name : Bytes) (header : Option Bytes) : State :=
  let t := { s with taken := s.taken ++ [readName header] }
  match readName header with
  | none => { t with closed := s.taken.length :: s.closed }
  | some sname => if cstr sname = cstr name then t.give s.taken.length sname else t.park s.taken.length sname

/-- A call begins to wait, a stream arrives, or the transport fails. -/
def step (s : State) : Event → State × Unit
  | .call name => (if s.waiting = none then s.call name else s,())
  | .arrives header =>
    match s.waiting with
    | none => (s,())
    | some name => (s.arrives name header,())
  | .fails => ({ s with waiting := none },())

/-- `pigeon_session_close`. -/
def State.close (s : State) : State :=
  { s with
    incoming := s.incoming.map (fun _ => none)
    closed := s.incoming.filterMap (Option.map Slot.handle) ++ s.closed }

def State.accounted (s : State) : Prop :=
  ∀ h < s.taken.length, (s.returned.map Prod.fst).count h + s.closed.count h = 1

def State.named (s : State) : Prop := ∀ r ∈ s.returned, s.taken[r.1]? = some (some r.2)
deriving Decidable

def State.plain (s : State) : Prop := ∀ r ∈ s.returned, ∀ name ∈ s.taken[r.1]?.join, 0 ∉ name
deriving Decidable

def State.inOrder (s : State) : Prop := s.returned.Pairwise (fun a b => a.2 = b.2 → a.1 < b.1)
deriving Decidable

def State.noneBehind (s : State) (name : Bytes) : Prop :=
  ∀ i ∈ s.incoming.findIdx? Option.isNone, ∀ place ∈ s.incoming.drop (i + 1), ∀ slot ∈ place,
    cstr slot.name ≠ cstr name
deriving Decidable

def Behind (s : State) : Event → Prop
  | .arrives header => ∀ name ∈ s.waiting, ∀ sname ∈ readName header, cstr sname ≠ cstr name → s.noneBehind sname
  | _ => True

instance (s : State) : (e : Event) → Decidable (Behind s e)
  | .arrives _ => inferInstanceAs (Decidable (∀ name ∈ s.waiting, _))
  | .call _ | .fails => .isTrue trivial

def holds (h : Nat) (place : Option Slot) : Nat := held (place.map Slot.handle) h

def places (s : State) (h : Nat) : Nat :=
  (s.incoming.map (holds h)).sum + (s.returned.map Prod.fst).count h + s.closed.count h

structure Consistent (s : State) : Prop where
  kept : InCustody (places s) s.taken.length
  parked : ∀ (i : Nat) slot, s.incoming[i]? = some (some slot) → s.taken[slot.handle]? = some (some slot.name)
  given : ∀ r ∈ s.returned, ∃ name, s.taken[r.1]? = some (some name) ∧ cstr name = r.2
  short : ∀ name, some name ∈ s.taken → name.length < pigeonMaxNameLen

theorem consistent_start : Consistent start := by
  refine ⟨fun h => ?_,fun i slot found => ?_,nofun,nofun⟩
  · simp [places,start,holds]
  · cases eq_of_mem_replicate (mem_of_getElem? found)

variable {slots : List (Option Slot)} {name : Bytes} {i : Nat}

theorem findIncoming_some (found : findIncoming (slots.map (Option.map Slot.name)) name = some i) :
    ∃ slot, slots[i]? = some (some slot) ∧ cstr slot.name = cstr name ∧
      ∀ (j : Nat) other, j < i → slots[j]? = some (some other) → cstr other.name ≠ cstr name := by
  obtain ⟨inside,this,before⟩ := findIdx?_eq_some_iff_getElem.mp found
  rw [length_map] at inside
  rw [getElem_map] at this
  cases here : slots[i] with
  | none => simp [here] at this
  | some slot =>
    rw [here] at this
    refine ⟨slot,List.getElem?_eq_some_iff.mpr ⟨inside,here⟩,by simpa using this,fun j other less at_j => ?_⟩
    obtain ⟨insideJ,value⟩ := List.getElem?_eq_some_iff.mp at_j
    have miss := before j less
    rw [getElem_map,value] at miss
    simpa using miss

theorem findIncoming_none (missed : findIncoming (slots.map (Option.map Slot.name)) name = none) {slot}
    (found : slots[i]? = some (some slot)) : cstr slot.name ≠ cstr name := by
  have miss := findIdx?_eq_none_iff.mp missed (some slot.name) (mem_map.mpr ⟨_,mem_of_getElem? found,rfl⟩)
  simpa using miss

theorem free_slot (free : slots.findIdx? Option.isNone = some i) : slots[i]? = some none := by
  obtain ⟨inside,this,-⟩ := findIdx?_eq_some_iff_getElem.mp free
  rw [getElem?_eq_getElem inside,isNone_iff_eq_none.mp this]

section
variable {s : State}

theorem count_given (returned : List (Nat × Bytes)) (handle h : Nat) (name : Bytes) :
    ((returned ++ [(handle,name)]).map Prod.fst).count h = (returned.map Prod.fst).count h + held (some handle) h := by
  rw [map_append,count_append,map_singleton,count_cons_held,count_nil,Nat.zero_add]

theorem consistent_call (old : Consistent s) (name : Bytes) : Consistent (s.call name) := by
  unfold State.call
  split
  next i found =>
    obtain ⟨slot,at_i,same,-⟩ := findIncoming_some found
    rw [at_i]
    refine ⟨old.kept.moved (fun h => ?_),fun j other at_j => ?_,fun r mem => ?_,old.short⟩
    · have change := sum_map_set (holds h) at_i none
      simp only [holds,map_some,map_none,held_none] at change
      simp only [places,State.give,count_given]
      omega
    · rcases getElem?_set_cases at_j with ⟨-,isNone⟩ | ⟨-,before⟩
      · cases isNone
      · exact old.parked j other before
    · rcases mem_snoc.mp mem with before | rfl
      · exact old.given r before
      · exact ⟨slot.name,old.parked i slot at_i,same⟩
  next => exact { old with }

variable {header : Option Bytes}

theorem readName_short (read : readName header = some name) : name.length < pigeonMaxNameLen := by
  cases header with
  | none => cases read
  | some header =>
    simp only [readName,wireStreamHeaderDecode] at read
    split at read
    · cases read
    · split at read
      · cases read
      next length rest _ =>
        split_ifs at read
        cases read
        rw [length_take]
        omega

theorem Consistent.took (old : Consistent s) {t x} (isName : readName header = x)
    (taken : t.taken = s.taken ++ [x]) (more : ∀ h, places t h = places s h + held (some s.taken.length) h)
    (parked : ∀ (i : Nat) slot, t.incoming[i]? = some (some slot) →
      s.incoming[i]? = some (some slot) ∨ (slot.handle = s.taken.length ∧ x = some slot.name))
    (given : ∀ r ∈ t.returned, r ∈ s.returned ∨ (r.1 = s.taken.length ∧ ∃ name, x = some name ∧ cstr name = r.2)) :
    Consistent t where
  kept := by
    rw [taken,length_append]
    exact old.kept.grown more
  parked i slot found := by
    rw [taken]
    rcases parked i slot found with before | ⟨handle,rfl⟩
    · exact getElem?_append_some (old.parked i slot before)
    · rw [handle,getElem?_concat_length]
  given r mem := by
    rw [taken]
    rcases given r mem with before | ⟨handle,name,rfl,same⟩
    · obtain ⟨name,header,same⟩ := old.given r before
      exact ⟨name,getElem?_append_some header,same⟩
    · exact ⟨name,by rw [handle,getElem?_concat_length],same⟩
  short name mem := by
    rw [taken] at mem
    rcases mem_append.mp mem with before | new
    · exact old.short name before
    · exact readName_short (isName.trans (mem_singleton.mp new).symm)

theorem consistent_arrives (old : Consistent s) (name : Bytes) (header : Option Bytes) :
    Consistent (s.arrives name header) := by
  simp only [State.arrives]
  split
  next unread =>
    refine old.took rfl rfl (fun h => ?_) (fun _ _ => Or.inl) (fun _ => Or.inl)
    simp only [places,count_cons_held]
    omega
  next sname read =>
    split
    next same =>
      refine old.took rfl rfl (fun h => ?_) (fun _ _ => Or.inl) (fun r mem => ?_)
      · simp only [places,State.give,count_given]
        omega
      · rcases mem_snoc.mp mem with before | rfl
        · exact Or.inl before
        · exact Or.inr ⟨rfl,sname,read,rfl⟩
    next =>
      simp only [State.park]
      split
      next i free =>
        have unused := free_slot free
        refine old.took rfl rfl (fun h => ?_) (fun j slot at_j => ?_) (fun _ => Or.inl)
        · have change := sum_map_set (holds h) unused (some ⟨s.taken.length,sname⟩)
          simp only [holds,map_some,map_none,held_none] at change
          simp only [places]
          omega
        · rcases getElem?_set_cases at_j with ⟨-,new⟩ | ⟨-,before⟩
          · cases new
            exact Or.inr ⟨rfl,read⟩
          · exact Or.inl before
      next =>
        refine old.took rfl rfl (fun h => ?_) (fun _ _ => Or.inl) (fun _ => Or.inl)
        simp only [places,count_cons_held]
        omega

theorem consistent_step (old : Consistent s) (e : Event) : Consistent (step s e).1 := by
  cases e with
  | call name => exact of_guard old (fun _ => consistent_call old name)
  | arrives header =>
    rw [step]
    split
    next => exact old
    next name _ => exact consistent_arrives old name header
  | fails => exact { old with }

theorem count_parked (slots : List (Option Slot)) (h : Nat) :
    (slots.filterMap (Option.map Slot.handle)).count h = (slots.map (holds h)).sum := by
  induction slots with
  | nil => rfl
  | cons place rest ih =>
    cases place with
    | none => simpa [holds] using ih
    | some slot =>
      show (slot.handle :: rest.filterMap (Option.map Slot.handle)).count h = _
      rw [count_cons_held,ih,map_cons,sum_cons,Nat.add_comm]
      rfl

theorem accounted_close (old : Consistent s) : s.close.accounted := by
  intro h inside
  have one := old.kept.one inside
  simp only [places] at one
  simp only [State.close,count_append,count_parked]
  omega

theorem named_iff (old : Consistent s) : s.named ↔ s.plain := by
  constructor
  · intro named r mem name read
    have header : s.taken[r.1]? = some (some name) := join_eq_some_iff.mp read
    obtain ⟨other,sameHeader,isName⟩ := old.given r mem
    rw [header] at sameHeader
    cases sameHeader
    have asked := named r mem
    rw [header,← isName] at asked
    exact cstr_eq_iff.mp (Option.some.inj (Option.some.inj asked)).symm
  · intro plain r mem
    obtain ⟨name,header,isName⟩ := old.given r mem
    rw [header,← isName,cstr_eq_iff.mpr (plain r mem name (join_eq_some_iff.mpr header))]

end

/-- Streams of one name are parked in order, after those returned; none of the awaited name is parked. -/
structure Ranked (s : State) : Prop where
  slots : ∀ (i j : Nat) x y, i < j → s.incoming[i]? = some (some x) → s.incoming[j]? = some (some y) →
    cstr x.name = cstr y.name → x.handle < y.handle
  before : ∀ r ∈ s.returned, ∀ (i : Nat) x, s.incoming[i]? = some (some x) → r.2 = cstr x.name → r.1 < x.handle
  order : s.inOrder
  unparked : ∀ name, s.waiting = some name → ∀ (i : Nat) x, s.incoming[i]? = some (some x) →
    cstr x.name ≠ cstr name

theorem ranked_start : Ranked start := by
  have empty : ∀ (i : Nat) x, start.incoming[i]? ≠ some (some x) := by
    intro i x found
    cases eq_of_mem_replicate (mem_of_getElem? found)
  exact ⟨fun i _ x _ _ found => absurd found (empty i x),nofun,List.Pairwise.nil,nofun⟩

section
variable {s : State}

theorem handle_lt (old : Consistent s) {x} (found : s.incoming[i]? = some (some x)) : x.handle < s.taken.length :=
  lt_of_getElem? (old.parked i x found)

theorem returned_lt (old : Consistent s) {r} (mem : r ∈ s.returned) : r.1 < s.taken.length := by
  obtain ⟨name,header,-⟩ := old.given r mem
  exact lt_of_getElem? header

theorem ranked_call (ranked : Ranked s) (name : Bytes) : Ranked (s.call name) := by
  unfold State.call
  split
  next i found =>
    obtain ⟨slot,at_i,same,first⟩ := findIncoming_some found
    rw [at_i]
    have stays : ∀ {j : Nat} {x : Slot}, (s.incoming.set i none)[j]? = some (some x) →
        j ≠ i ∧ s.incoming[j]? = some (some x) := by
      intro j x at_j
      rcases getElem?_set_cases at_j with ⟨-,isNone⟩ | other
      · cases isNone
      · exact other
    refine ⟨fun j k x y less at_j at_k => ?_,fun r mem j x at_j alike => ?_,?_,nofun⟩
    · exact ranked.slots j k x y less (stays at_j).2 (stays at_k).2
    · obtain ⟨apart,before⟩ := stays at_j
      rcases mem_snoc.mp mem with earlier | rfl
      · exact ranked.before r earlier j x before alike
      · have later : i < j := by
          by_contra notLater
          exact first j x (by omega) before alike.symm
        exact ranked.slots i j slot x later at_i before (same.trans alike)
    · refine pairwise_snoc.mpr ⟨ranked.order,fun a earlier alike => ?_⟩
      exact ranked.before a earlier i slot at_i (alike.trans same.symm)
  next missed =>
    refine { ranked with unparked := fun asked same i x found => ?_ }
    cases same
    exact findIncoming_none missed found

theorem ranked_give (old : Consistent s) (ranked : Ranked s) {sname} (waits : s.waiting = some name)
    (same : cstr sname = cstr name) (taken : List (Option Bytes)) :
    Ranked (State.give { s with taken } s.taken.length sname) := by
  refine ⟨ranked.slots,fun r mem i x found alike => ?_,?_,nofun⟩
  · rcases mem_snoc.mp mem with earlier | rfl
    · exact ranked.before r earlier i x found alike
    · exact absurd (alike.symm.trans same) (ranked.unparked name waits i x found)
  · exact pairwise_snoc.mpr ⟨ranked.order,fun a earlier _ => returned_lt old earlier⟩

theorem ranked_park (old : Consistent s) (ranked : Ranked s) {sname} (waits : s.waiting = some name)
    (other : cstr sname ≠ cstr name) (behind : s.noneBehind sname) (taken : List (Option Bytes)) :
    Ranked (State.park { s with taken } s.taken.length sname) := by
  simp only [State.park]
  split
  next i free =>
    refine ⟨fun j k x y less at_j at_k alike => ?_,fun r mem j x at_j alike => ?_,ranked.order,
      fun asked same j x at_j => ?_⟩
    · rcases getElem?_set_cases at_j with ⟨rfl,new⟩ | ⟨-,beforeJ⟩
      · cases new
        rcases getElem?_set_cases at_k with ⟨rfl,-⟩ | ⟨-,beforeK⟩
        · exact absurd less (Nat.lt_irrefl _)
        · have shifted : j + 1 + (k - (j + 1)) = k := by omega
          have later : some y ∈ s.incoming.drop (j + 1) := by
            refine mem_of_getElem? (i := k - (j + 1)) ?_
            rw [getElem?_drop,shifted,beforeK]
          exact absurd alike.symm (behind j free (some y) later y rfl)
      · rcases getElem?_set_cases at_k with ⟨-,new⟩ | ⟨-,beforeK⟩
        · cases new
          exact handle_lt old beforeJ
        · exact ranked.slots j k x y less beforeJ beforeK alike
    · rcases getElem?_set_cases at_j with ⟨-,new⟩ | ⟨-,before⟩
      · cases new
        exact returned_lt old mem
      · exact ranked.before r mem j x before alike
    · rcases getElem?_set_cases at_j with ⟨-,new⟩ | ⟨-,before⟩
      · cases new
        rw [waits] at same
        cases same
        exact other
      · exact ranked.unparked asked same j x before
  next => exact { ranked with }

theorem ranked_step (old : Consistent s) (ranked : Ranked s) (e : Event) (behind : Behind s e) :
    Ranked (step s e).1 := by
  cases e with
  | call name => exact of_guard ranked (fun _ => ranked_call ranked name)
  | arrives header =>
    rw [step]
    split
    next => exact ranked
    next name waits =>
      simp only [State.arrives]
      split
      next => exact { ranked with }
      next sname read =>
        split
        next same => exact ranked_give old ranked waits same _
        next other => exact ranked_park old ranked waits other (behind name waits sname read other) _
  | fails => exact { ranked with unparked := nofun }

end

theorem consistent_final (events : List Event) : Consistent (final step start events) :=
  final_kept (I := Consistent) (fun _ e old => consistent_step old e) consistent_start events

theorem in_order (events : List Event) (behind : Along step Behind start events) :
    (final step start events).inOrder := by
  have both : Consistent (final step start events) ∧ Ranked (final step start events) := by
    refine final_invariant (I := fun s => Consistent s ∧ Ranked s) ?_ ⟨consistent_start,ranked_start⟩ behind
    rintro s e ⟨old,ranked⟩ fine
    exact ⟨consistent_step old e,ranked_step old ranked e fine⟩
  exact both.2.order

/-- Every stream taken is returned once or closed once; the returned ones have the names asked for just when no header
    has a NUL in its name; one name comes in order if none is parked in front of an earlier one. -/
theorem incoming_returned_once (events : List Event) : (final step start events).close.accounted ∧
      ((final step start events).named ↔ (final step start events).plain) ∧
      (Along step Behind start events → (final step start events).inOrder) :=
  ⟨accounted_close (consistent_final events),named_iff (consistent_final events),in_order events⟩

section
variable {hmac : Bytes → Bytes → Sealing.Key} {s : State} {c : CSession.Session}

theorem bindAead_incoming (name : Bytes) : (CSession.bindAead hmac c name).1.incoming = c.incoming := by
  unfold CSession.bindAead
  split
  next => rfl
  next => split <;> rfl

theorem bindAead_ok (short : (cstr name).length < pigeonMaxNameLen) : (CSession.bindAead hmac c name).2 := by
  unfold CSession.bindAead
  split
  next => rfl
  next keys _ =>
    rw [CSession.streamAead_eq hmac keys short]

theorem names_park (handle : Nat) (name : Bytes) : (s.park handle name).names = CSession.park s.names name := by
  have same : s.names.findIdx? Option.isNone = s.incoming.findIdx? Option.isNone := by
    rw [State.names,findIdx?_map]
    congr 1
    funext place
    cases place <;> rfl
  rw [CSession.park,same,State.park]
  cases s.incoming.findIdx? Option.isNone with
  | none => rfl
  | some i => exact map_set

theorem waiting_park (handle : Nat) (name : Bytes) : (s.park handle name).waiting = s.waiting := by
  unfold State.park
  split <;> rfl

theorem returned_park (handle : Nat) (name : Bytes) : (s.park handle name).returned = s.returned := by
  unfold State.park
  split <;> rfl

theorem final_idle (idle : s.waiting = none) (arrivals : List (Option Bytes)) :
    final step s (arrivals.map .arrives ++ [.fails]) = s := by
  induction arrivals with
  | nil =>
    show { s with waiting := none } = s
    rw [← idle]
  | cons header rest ih =>
    rw [map_cons,cons_append,final_cons,step,idle]
    exact ih

theorem acceptLoop_eq (waits : s.waiting = some name) (same : c.incoming = s.names) (arrivals : List (Option Bytes)) :
    (CSession.acceptLoop hmac c name arrivals).1.incoming = (final step s (arrivals.map .arrives ++ [.fails])).names ∧
      (final step s (arrivals.map .arrives ++ [.fails])).returned.length =
        s.returned.length + (CSession.acceptLoop hmac c name arrivals).2.toNat := by
  induction arrivals generalizing s c with
  | nil => exact ⟨same,rfl⟩
  | cons header rest ih =>
    have loop : CSession.acceptLoop hmac c name (header :: rest) =
        match readName header with
        | none => CSession.acceptLoop hmac c name rest
        | some sname =>
          if cstr sname = cstr name then CSession.bindAead hmac c sname
          else CSession.acceptLoop hmac { c with incoming := CSession.park c.incoming sname } name rest := by
      cases header with
      | none => rfl
      | some header =>
        rw [CSession.acceptLoop,readName]
        split <;> rfl
    rw [loop,map_cons,cons_append,final_cons,step,waits]
    simp only [State.arrives]
    cases read : readName header with
    | none => exact ih waits same
    | some sname =>
      by_cases wanted : cstr sname = cstr name
      · simp only [wanted,if_true]
        rw [final_idle rfl,bindAead_incoming,bindAead_ok (Nat.lt_of_le_of_lt (length_cstr_le _) (readName_short read))]
        exact ⟨same,by simp [State.give]⟩
      · simp only [wanted,if_false]
        have parked := names_park (s := { s with taken := s.taken ++ [some sname] }) s.taken.length sname
        have later := ih (s := State.park { s with taken := s.taken ++ [some sname] } s.taken.length sname)
          (c := { c with incoming := CSession.park c.incoming sname }) ((waiting_park _ _).trans waits)
          (by rw [parked,same]; rfl)
        rw [returned_park] at later
        exact later

/-- A call with the streams that arrive before the transport fails is that of
    `pigeon_session_accept_incoming_stream`. -/
theorem acceptIncoming_eq (events : List Event) (reached : final step start events = s) (idle : s.waiting = none)
    (same : c.incoming = s.names) (name : Bytes) (arrivals : List (Option Bytes)) :
    (CSession.acceptIncoming hmac c name arrivals).1.incoming =
        (final step s (.call name :: (arrivals.map .arrives ++ [.fails]))).names ∧
      (final step s (.call name :: (arrivals.map .arrives ++ [.fails]))).returned.length =
        s.returned.length + (CSession.acceptIncoming hmac c name arrivals).2.toNat := by
  rw [CSession.acceptIncoming,same,final_cons,step,if_pos idle,State.call]
  cases found : findIncoming s.names name with
  | some i =>
    obtain ⟨slot,at_i,alike,-⟩ := findIncoming_some found
    have fits : (cstr (cstr name)).length < pigeonMaxNameLen := by
      have old : Consistent s := reached ▸ consistent_final events
      have stored := old.short slot.name (mem_of_getElem? (old.parked i slot at_i))
      have shorter := length_cstr_le slot.name
      have inner := length_cstr_le (cstr name)
      rw [alike] at shorter
      omega
    simp only [at_i]
    rw [final_idle rfl,bindAead_incoming,bindAead_ok fits]
    exact ⟨by simp [State.names,State.give,map_set],by simp [State.give]⟩
  | none => exact acceptLoop_eq (s := { s with waiting := some name }) rfl same arrivals

end

def header (name : UInt8) : Option Bytes := some [1,name]

def pickedUp : List Event := [.call [97],.arrives (header 98),.arrives none,.arrives (header 97),.call [98]]

theorem first_call_refined :
    (final step start (.call [97] :: ([header 98,header 97].map .arrives ++ [.fails]))).returned.length = 0 +
      (CSession.acceptIncoming Sealing.mixed (CSession.newSession ⟨Sealing.keyA,Sealing.keyB⟩ false) [97]
        [header 98,header 97]).2.toNat :=
  (acceptIncoming_eq [] rfl rfl rfl [97] [header 98,header 97]).2

theorem picked_up_once :
    (final step start pickedUp).returned = [(2,[97]),(0,[98])] ∧ (final step start pickedUp).close.accounted ∧
      (final step start pickedUp).named ∧ (final step start pickedUp).inOrder :=
  ⟨by decide,(incoming_returned_once pickedUp).1,(incoming_returned_once pickedUp).2.1.mpr (by decide),
    (incoming_returned_once pickedUp).2.2 (by decide)⟩

def longerName : List Event := [.call [99,104,97,116],.arrives (some [6,99,104,97,116,0,120])]

def reusedSlot : List Event :=
  [.call [120],.arrives (header 97),.arrives (header 98),.arrives (header 120),.call [97],.call [120],
    .arrives (header 98),.arrives (header 120),.call [98],.call [98]]

/-- The stream of the longer name is returned for `chat`; and of the two streams `b` the second is returned first. -/
theorem names_and_order_fail : (final step start longerName).returned = [(0,[99,104,97,116])] ∧
      (final step start longerName).taken = [some [99,104,97,116,0,120]] ∧ ¬ (final step start longerName).named ∧
      (final step start reusedSlot).taken = [some [97],some [98],some [120],some [98],some [120]] ∧
      (final step start reusedSlot).returned = [(2,[120]),(0,[97]),(4,[120]),(3,[98]),(1,[98])] ∧
      ¬ (final step start reusedSlot).inOrder := by
  decide

end Pigeon.CIncoming
