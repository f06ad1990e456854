import Pigeon.Delivery
import Pigeon.SessionPair

/-!
Two ends of a session with many streams between them. An `Endpoint` is one implementation of
an end, whose stream objects number their messages with counters that they may share
(`counter`). As long as no two streams have one name, a message that arrives is accepted
(`accepts_run`); two that share the sender's counter get in each other's way
(`shared_counter_rejects`).
-/
namespace Pigeon.Multiplex
open Octets Runs Sequence Sealing Crypto Framing Delivery List Function
open SessionPair (Side)

/-- One end of a session. Stream objects are numbered as they are handed out; `Holds` relates a state to their
    names. -/
structure Endpoint (aead : Aead) where
  State : Type
  Counter : Type
  decEq : DecidableEq Counter
  start : State
  /-- A stream object is handed out under a name. -/
  hand : State → Bytes → State
  /-- The octets that a message puts on the stream, given whether it takes any. -/
  send : State → Nat → Bytes → Bool → State × Option Bytes
  /-- What is left of the octets that have arrived, and the message returned into a buffer. -/
  recv : State → Nat → Bytes → Nat → (State × Bytes) × Option Bytes
  admits : Bytes → Bool
  /-- Whether a stream of the name is encrypted. -/
  secured : Bytes → Bool
  fits : Nat → Nat → Bool
  counter : Bytes → Nat → Counter
  (sendSeq recvSeq : State → Counter → UInt64)
  (sendKey recvKey : Bytes → Key)
  Holds : List Bytes → State → Prop
  counter_apart : ∀ {name name' j j'}, counter name j = counter name' j' → name = name' ∨ j = j'
  holds_start : Holds [] start
  sendSeq_start : ∀ c, sendSeq start c = 0
  recvSeq_start : ∀ c, recvSeq start c = 0
  hand_holds : ∀ {names s name}, Holds names s → admits name = true →
    Holds (names ++ [name]) (hand s name) ∧ sendSeq (hand s name) = sendSeq s ∧ recvSeq (hand s name) = recvSeq s
  send_secured : ∀ {names s j name} (msg : Bytes) (up : Bool), Holds names s → names[j]? = some name →
    secured name = true → msg.length + 24 ≤ maxMessageSize →
    Holds names (send s j msg up).1 ∧
    (send s j msg up).2 =
      (if up then some (frame (packet aead (sendKey name) (sendSeq s (counter name j)) msg)) else none) ∧
    sendSeq (send s j msg up).1 = update (sendSeq s) (counter name j) (sendSeq s (counter name j) + 1) ∧
    recvSeq (send s j msg up).1 = recvSeq s
  send_clear : ∀ {names s j name} {msg : Bytes} (up : Bool), Holds names s → names[j]? = some name →
    secured name = false → msg.length ≤ maxMessageSize →
    send s j msg up = (s,if up then some (frame msg) else none)
  recv_expected : ∀ {names s j name bufLen} {p : Bytes} (rest : Bytes), Holds names s → names[j]? = some name →
    secured name = true → p.length + 24 ≤ maxMessageSize → fits p.length bufLen = true →
    ∃ s', recv s j (frame (packet aead (recvKey name) (recvSeq s (counter name j)) p) ++ rest) bufLen =
        ((s',rest),some p) ∧
      Holds names s' ∧ sendSeq s' = sendSeq s ∧
      recvSeq s' = update (recvSeq s) (counter name j) (recvSeq s (counter name j) + 1)
  recv_unexpected : ∀ {names s j name} {seq : UInt64} {p : Bytes} (rest : Bytes) (bufLen : Nat), Holds names s →
    names[j]? = some name → secured name = true → p.length + 24 ≤ maxMessageSize →
    seq ≠ recvSeq s (counter name j) →
    (recv s j (frame (packet aead (recvKey name) seq p) ++ rest) bufLen).2 = none
  recv_clear : ∀ {names s j name bufLen} {p : Bytes} (rest : Bytes), Holds names s → names[j]? = some name →
    secured name = false → p.length ≤ maxMessageSize → recv s j (frame p ++ rest) bufLen = ((s,rest),some p)
  recv_nothing : ∀ s j bufLen, recv s j [] bufLen = ((s,[]),none)

attribute [instance] Endpoint.decEq

structure End {aead : Aead} (E : Endpoint aead) where
  state : E.State
  handed : List (Nat × Bytes)

def other : Side → Side
  | .near => .far
  | .far => .near

/-- One direction of a stream. `pending` keeps, for the statements below, the messages that were written and not yet
    read. -/
structure Pipe where
  octets : Bytes
  pending : List Bytes
  (writable readable : Bool)

structure Link where
  name : Bytes
  lan : Bool
  toward : Side → Pipe

structure Net {aead : Aead} (E : Side → Endpoint aead) where
  ends : (side : Side) → End (E side)
  links : List Link
  onLAN : Bool

inductive Event
  /-- A side opens a stream. -/
  | connect (side : Side) (name : Bytes)
  /-- A side is handed a stream that the other side opened. -/
  | accept (side : Side) (i : Nat)
  | send (side : Side) (j : Nat) (msg : Bytes)
  | recv (side : Side) (j : Nat) (bufLen : Nat)
  | closeWrite (side : Side) (j : Nat)
  | reset (side : Side) (j : Nat)
  /-- `swapTransport`: streams are opened over another connection from now on. -/
  | swapTransport
  /-- The first connection is closed. -/
  | closeOld

def Pipe.idle : Pipe := ⟨[],[],true,true⟩

def Pipe.write (p : Pipe) (octets : Option Bytes) (msg : Bytes) : Pipe :=
  match octets with
  | none => p
  | some written => { p with octets := p.octets ++ written, pending := p.pending ++ [msg] }

def Pipe.read (p : Pipe) (rest : Bytes) : Pipe := { p with octets := rest, pending := p.pending.tail }

def Link.put (link : Link) (side : Side) (p : Pipe) : Link := { link with toward := update link.toward side p }

def Link.reset (link : Link) : Link :=
  { link with toward := fun side => { link.toward side with writable := false, readable := false } }

section
variable {aead : Aead} {E : Side → Endpoint aead}

def End.give {E : Endpoint aead} (e : End E) (i : Nat) (name : Bytes) : End E :=
  ⟨E.hand e.state name,e.handed ++ [(i,name)]⟩

def Net.linkOf (n : Net E) (side : Side) (j : Nat) : Option (Nat × Link) := do
  let (i,_) ← (n.ends side).handed[j]?
  let link ← n.links[i]?
  return (i,link)

def Net.next (n : Net E) (side : Side) (j : Nat) : Option Bytes := do
  let (_,link) ← n.linkOf side j
  if (link.toward side).readable then (link.toward side).pending.head? else none

def Net.setEnd (n : Net E) (side : Side) (s : (E side).State) : (side : Side) → End (E side) :=
  update n.ends side { n.ends side with state := s }

def step (n : Net E) : Event → Net E × Option Bytes
  | .connect side name =>
    if (E side).admits name then
      ({ n with
          ends := update n.ends side ((n.ends side).give n.links.length name)
          links := n.links ++ [⟨name,n.onLAN,fun _ => .idle⟩] },none)
    else (n,none)
  | .accept side i =>
    match n.links[i]? with
    | none => (n,none)
    | some link =>
      if (E side).admits link.name ∧ i ∉ (n.ends side).handed.map Prod.fst then
        ({ n with ends := update n.ends side ((n.ends side).give i link.name) },none)
      else (n,none)
  | .send side j msg =>
    match n.linkOf side j with
    | none => (n,none)
    | some (i,link) =>
      let pipe := link.toward (other side)
      let sent := (E side).send (n.ends side).state j msg pipe.writable
      ({ n with
          ends := n.setEnd side sent.1
          links := n.links.set i (link.put (other side) (pipe.write sent.2 msg)) },none)
  | .recv side j bufLen =>
    match n.linkOf side j with
    | none => (n,none)
    | some (i,link) =>
      let pipe := link.toward side
      if pipe.readable then
        let got := (E side).recv (n.ends side).state j pipe.octets bufLen
        ({ n with
            ends := n.setEnd side got.1.1
            links := n.links.set i (link.put side (pipe.read got.1.2)) },got.2)
      else (n,none)
  | .closeWrite side j =>
    match n.linkOf side j with
    | none => (n,none)
    | some (i,link) =>
      ({ n with links := n.links.set i (link.put (other side) { link.toward (other side) with writable := false }) },none)
  | .reset side j =>
    match n.linkOf side j with
    | none => (n,none)
    | some (i,link) => ({ n with links := n.links.set i link.reset },none)
  | .swapTransport => ({ n with onLAN := true },none)
  | .closeOld => ({ n with links := n.links.map (fun link => if link.lan then link else link.reset) },none)

variable (E) in
def idle : Net E := ⟨fun side => ⟨(E side).start,[]⟩,[],false⟩

def opened (events : List Event) : List Bytes :=
  events.filterMap (fun e => match e with
    | .connect _ name => some name
    | _ => none)

def Fits (n : Net E) : Event → Prop
  | .send _ _ msg => msg.length + 24 ≤ maxMessageSize
  | .recv side j bufLen => ∀ msg ∈ n.next side j, (E side).fits msg.length bufLen = true
  | _ => True

def Accepts (n : Net E) : Event → Prop
  | .recv side j bufLen => ∀ msg ∈ n.next side j, (step n (.recv side j bufLen)).2 = some msg
  | _ => True

section
variable {E : Endpoint aead} {e : End E}

/-- The objects are the state's, one for a stream, no two encrypted ones of one name; unused counters are zero. -/
structure End.Ok (e : End E) : Prop where
  holds : E.Holds (e.handed.map Prod.snd) e.state
  once : (e.handed.map Prod.fst).Nodup
  admitted : ∀ entry ∈ e.handed, E.admits entry.2 = true
  apart : ∀ (j j' : Nat) (entry entry' : Nat × Bytes), e.handed[j]? = some entry → e.handed[j']? = some entry' →
    E.secured entry.2 = true → entry.2 = entry'.2 → j = j'
  unused : ∀ c, (∀ (j : Nat) (entry : Nat × Bytes), e.handed[j]? = some entry → E.counter entry.2 j ≠ c) →
    E.sendSeq e.state c = 0 ∧ E.recvSeq e.state c = 0

def End.Shows (e : End E) (seq : E.Counter → UInt64) (i : Nat) (value : UInt64) : Prop :=
  (∀ (j : Nat) (name : Bytes), e.handed[j]? = some (i,name) → seq (E.counter name j) = value) ∧
    (i ∉ e.handed.map Prod.fst → value = 0)

theorem ok_start : (⟨E.start,[]⟩ : End E).Ok := by
  refine ⟨E.holds_start,nodup_nil,?_,?_,fun c _ => ⟨E.sendSeq_start c,E.recvSeq_start c⟩⟩ <;> simp

variable {entry : Nat × Bytes}

theorem names_getElem? {j : Nat} (here : e.handed[j]? = some entry) : (e.handed.map Prod.snd)[j]? = some entry.2 := by
  rw [getElem?_map,here]; rfl

theorem End.Ok.counter_ne (ok : e.Ok) {j j' entry'} (here : e.handed[j]? = some entry)
    (there : e.handed[j']? = some entry') (secured : E.secured entry.2) (differ : j ≠ j') :
    E.counter entry'.2 j' ≠ E.counter entry.2 j := by
  intro same
  rcases E.counter_apart same with name | place
  · exact differ (ok.apart j j' entry entry' here there secured name.symm)
  · exact differ place.symm

section
variable {i : Nat} {name : Bytes}

theorem give_getElem? {j} (here : (e.give i name).handed[j]? = some entry) :
    e.handed[j]? = some entry ∨ j = e.handed.length ∧ entry = (i,name) := by
  simp only [End.give,getElem?_append] at here
  split at here
  · exact .inl here
  · rw [getElem?_singleton] at here
    split at here
    · rename_i inside zero
      exact .inr ⟨by omega,(Option.some.inj here).symm⟩
    · cases here

theorem give_apart (ok : e.Ok) (fresh : E.secured name → name ∉ e.handed.map Prod.snd) (j j' : Nat)
    (entry entry' : Nat × Bytes) (here : (e.give i name).handed[j]? = some entry)
    (there : (e.give i name).handed[j']? = some entry') (secured : E.secured entry.2)
    (same : entry.2 = entry'.2) : j = j' := by
  have mem : ∀ {a : Nat} {x : Nat × Bytes}, e.handed[a]? = some x → x.2 ∈ e.handed.map Prod.snd :=
    fun found => mem_map.mpr ⟨_,mem_of_getElem? found,rfl⟩
  rcases give_getElem? here with old | ⟨rfl,rfl⟩
  · rcases give_getElem? there with old' | ⟨rfl,rfl⟩
    · exact ok.apart j j' entry entry' old old' secured same
    · have named : entry.2 = name := same
      exact absurd (named ▸ mem old) (fresh (named ▸ secured))
  · rcases give_getElem? there with old' | ⟨rfl,-⟩
    · have named : name = entry'.2 := same
      exact absurd (named ▸ mem old') (fresh secured)
    · rfl

theorem ok_give (ok : e.Ok) (new : i ∉ e.handed.map Prod.fst) (admits : E.admits name)
    (fresh : E.secured name → name ∉ e.handed.map Prod.snd) : (e.give i name).Ok := by
  obtain ⟨holds,sendSame,recvSame⟩ := E.hand_holds ok.holds admits
  refine ⟨?_,?_,?_,give_apart ok fresh,?_⟩
  · simpa [End.give] using holds
  · simp only [End.give,map_append,map_singleton]
    exact nodup_append.mpr ⟨ok.once,nodup_singleton _,
      fun a old b last same => new (mem_singleton.mp last ▸ same ▸ old)⟩
  · exact forall_mem_snoc.mpr ⟨ok.admitted,admits⟩
  · intro c unused
    simp only [End.give,sendSame,recvSame]
    refine ok.unused c ?_
    intro j entry here
    exact unused j entry (getElem?_append_some here)

theorem give_zero (ok : e.Ok) (fresh : name ∉ e.handed.map Prod.snd) :
    E.sendSeq e.state (E.counter name e.handed.length) = 0 ∧ E.recvSeq e.state (E.counter name e.handed.length) = 0 := by
  refine ok.unused _ ?_
  intro j entry here same
  rcases E.counter_apart same with sameName | place
  · exact fresh (sameName ▸ mem_map.mpr ⟨entry,mem_of_getElem? here,rfl⟩)
  · exact absurd (lt_of_getElem? here) (by omega)

theorem shows_give {seq a value} (shows : e.Shows seq a value) (new : i ∉ e.handed.map Prod.fst)
    (zero : a = i → seq (E.counter name e.handed.length) = 0) : (e.give i name).Shows seq a value := by
  refine ⟨?_,?_⟩
  · intro j other here
    rcases give_getElem? here with old | ⟨rfl,same⟩
    · exact shows.1 j other old
    · cases same
      rw [zero rfl,shows.2 new]
  · intro absent
    refine shows.2 (fun old => absent ?_)
    simp only [End.give,map_append]
    exact mem_append_left _ old

end

theorem ok_update {s : E.State} (ok : e.Ok) (holds : E.Holds (e.handed.map Prod.snd) s) {j : Nat}
    (here : e.handed[j]? = some entry)
    (kept : ∀ c, c ≠ E.counter entry.2 j → E.sendSeq s c = E.sendSeq e.state c ∧ E.recvSeq s c = E.recvSeq e.state c) :
    ({ e with state := s } : End E).Ok := by
  refine ⟨holds,ok.once,ok.admitted,ok.apart,?_⟩
  intro c unused
  obtain ⟨sends,recvs⟩ := kept c (unused j entry here).symm
  have zero := ok.unused c unused
  exact ⟨sends.trans zero.1,recvs.trans zero.2⟩

theorem shows_update {s : E.State} (ok : e.Ok) {j : Nat} {i : Nat} {name : Bytes} (here : e.handed[j]? = some (i,name))
    (secured : E.secured name) {seq : E.Counter → UInt64} {a : Nat} {value : UInt64} (shows : e.Shows seq a value) :
    ({ e with state := s } : End E).Shows (update seq (E.counter name j) (seq (E.counter name j) + 1)) a
      (if a = i then value + 1 else value) := by
  refine ⟨?_,?_⟩
  · intro j' name' there
    by_cases place : j = j'
    · subst place
      cases (here.symm.trans there : some (i,name) = some (a,name'))
      rw [update_self,shows.1 j name here,if_pos rfl]
    · have differ := ok.counter_ne here there secured place
      have apart : a ≠ i := by
        rintro rfl
        refine place ((getElem?_inj ?_ ok.once).mp ?_)
        · rw [length_map]
          exact lt_of_getElem? here
        · rw [getElem?_map,getElem?_map,here,there]
          rfl
      rw [update_of_ne differ,if_neg apart]
      exact shows.1 j' name' there
  · intro absent
    have apart : a ≠ i := by
      rintro rfl
      exact absent (mem_map.mpr ⟨(a,name),mem_of_getElem? here,rfl⟩)
    rw [if_neg apart]
    exact shows.2 absent

end

section
variable {E F : Endpoint aead} {receiver : End E} {sender : End F} {a : Nat} {name : Bytes} {pipe : Pipe}

/-- The messages under way in order, numbered from what the receiver expects to what the sender uses next. -/
structure Flow (receiver : End E) (sender : End F) (a : Nat) (name : Bytes) (pipe : Pipe) : Prop where
  small : ∀ msg ∈ pipe.pending, msg.length + 24 ≤ maxMessageSize
  clear : E.secured name = false → pipe.octets = pipe.pending.flatMap frame
  secured : E.secured name = true → ∃ (items : List (UInt64 × Bytes)) (expected : UInt64),
    pipe.octets = (items.map (numbered aead (E.recvKey name))).flatMap frame ∧
    items.map Prod.snd = pipe.pending ∧ CountsFrom (· + 1) expected (items.map Prod.fst) ∧
    receiver.Shows (E.recvSeq receiver.state) a expected ∧
    (pipe.writable = true → sender.Shows (F.sendSeq sender.state) a (expected + UInt64.ofNat items.length))

def Flows (receiver : End E) (sender : End F) (a : Nat) (name : Bytes) (pipe : Pipe) : Prop :=
  pipe.readable = true → E.admits name = true → Flow receiver sender a name pipe

theorem Flows.mono {receiver' : End E} {sender' : End F} (flows : Flows receiver sender a name pipe) {writable : Bool}
    (recvs : E.secured name → ∀ value, receiver.Shows (E.recvSeq receiver.state) a value →
      receiver'.Shows (E.recvSeq receiver'.state) a value)
    (sends : E.secured name → writable → pipe.writable ∧ ∀ value,
      sender.Shows (F.sendSeq sender.state) a value → sender'.Shows (F.sendSeq sender'.state) a value) :
    Flows receiver' sender' a name { pipe with writable } := by
  intro readable admits
  obtain ⟨small,clear,secured⟩ := flows readable admits
  refine ⟨small,clear,fun secret => ?_⟩
  obtain ⟨items,expected,octets,payloads,counts,shows,next⟩ := secured secret
  refine ⟨items,expected,octets,payloads,counts,recvs secret expected shows,fun up => ?_⟩
  obtain ⟨before,shown⟩ := sends secret up
  exact shown _ (next before)

theorem flows_idle (absent : a ∉ receiver.handed.map Prod.fst) (absent' : a ∉ sender.handed.map Prod.fst) :
    Flows receiver sender a name .idle := by
  have none : ∀ {G : Endpoint aead} {e : End G} (seq : G.Counter → UInt64), a ∉ e.handed.map Prod.fst →
      e.Shows seq a 0 := by
    intro G e seq missing
    refine ⟨?_,fun _ => rfl⟩
    intro j name here
    exact absurd (mem_map.mpr ⟨(a,name),mem_of_getElem? here,rfl⟩) missing
  refine fun _ _ => ⟨?_,fun _ => rfl,fun _ => ⟨[],0,rfl,rfl,trivial,none _ absent,fun _ => none _ absent'⟩⟩
  intro msg impossible
  cases impossible

theorem flows_clear (flows : Flows receiver sender a name pipe) (unsecured : E.secured name = false) {msg : Bytes}
    (within : msg.length + 24 ≤ maxMessageSize) :
    Flows receiver sender a name (pipe.write (if pipe.writable then some (frame msg) else none) msg) := by
  by_cases up : pipe.writable = true
  · intro readable admits
    rw [if_pos up,Pipe.write] at readable ⊢
    obtain ⟨small,clear,-⟩ := flows readable admits
    refine ⟨forall_mem_append.mpr ⟨small,by simpa using within⟩,?_,?_⟩
    · intro _
      simp [clear unsecured]
    · intro secret
      rw [unsecured] at secret
      cases secret
  · rw [if_neg up]
    exact flows

theorem flows_sealed {sender'} (flows : Flows receiver sender a name pipe) (secret : E.secured name)
    {msg} (within : msg.length + 24 ≤ maxMessageSize) {seq}
    (now : ∀ value, sender.Shows (F.sendSeq sender.state) a value → value = seq)
    (sends : ∀ value, sender.Shows (F.sendSeq sender.state) a value →
      sender'.Shows (F.sendSeq sender'.state) a (value + 1)) :
    Flows receiver sender' a name
      (pipe.write (if pipe.writable then some (frame (packet aead (E.recvKey name) seq msg)) else none) msg) := by
  by_cases up : pipe.writable = true
  · intro readable admits
    rw [if_pos up,Pipe.write] at readable ⊢
    obtain ⟨small,-,secured⟩ := flows readable admits
    obtain ⟨items,expected,octets,payloads,counts,shows,next⟩ := secured secret
    have number : seq = expected + UInt64.ofNat (items.map Prod.fst).length := by
      rw [length_map]
      exact (now _ (next up)).symm
    refine ⟨forall_mem_append.mpr ⟨small,by simpa using within⟩,?_,?_⟩
    · intro unsecured
      rw [unsecured] at secret
      cases secret
    · intro _
      refine ⟨items ++ [(seq,msg)],expected,?_,?_,?_,shows,fun _ => ?_⟩
      · simp [octets,numbered]
      · simp [payloads]
      · rw [map_append,map_singleton,number]
        exact countsFrom_snoc counts
      · have later := sends _ (next up)
        rw [UInt64.add_assoc,ofNat_succ] at later
        simpa using later
  · rw [if_neg up]
    exact flows.mono (fun _ _ shows => shows) (fun _ writable => absurd writable up)

end

structure Matched (E : Side → Endpoint aead) : Prop where
  secured : ∀ rx tx name, (E rx).admits name = true → (E tx).admits name = true →
    (E tx).secured name = (E rx).secured name
  keys : ∀ rx tx name, tx ≠ rx → (E rx).admits name = true → (E tx).admits name = true →
    (E tx).sendKey name = (E rx).recvKey name

structure Inv (n : Net E) : Prop where
  ok : ∀ side, (n.ends side).Ok
  linked : ∀ side, ∀ entry ∈ (n.ends side).handed, ∃ link, n.links[entry.1]? = some link ∧ link.name = entry.2
  flows : ∀ (a : Nat) (link : Link), n.links[a]? = some link → ∀ rx tx, tx ≠ rx →
    Flows (n.ends rx) (n.ends tx) a link.name (link.toward rx)

theorem eq_other {side another} (apart : another ≠ side) : another = other side := by
  cases side <;> cases another <;> first | rfl | exact absurd rfl apart

theorem other_ne (side : Side) : other side ≠ side := by cases side <;> decide

theorem linkOf_eq_some {n : Net E} {side : Side} {j i : Nat} {link : Link} (found : n.linkOf side j = some (i,link)) :
    ∃ name, (n.ends side).handed[j]? = some (i,name) ∧ n.links[i]? = some link := by
  simp only [Net.linkOf,bind,Option.bind_eq_some_iff,pure,Option.some.injEq,Prod.mk.injEq] at found
  obtain ⟨⟨i',name⟩,here,link',there,rfl,rfl⟩ := found
  exact ⟨name,here,there⟩

variable {n : Net E}

theorem inv_idle : Inv (idle E) := by
  refine ⟨fun side => ok_start,?_,?_⟩ <;> simp [idle]

variable {p : Bytes → Bool}

theorem index_of_distinct {names : List Bytes} (distinct : (names.filter p).Nodup) {a b : Nat}
    {name} (here : names[a]? = some name) (there : names[b]? = some name) (secret : p name) : a = b := by
  have pairs := pairwise_iff_getElem.mp (pairwise_filter.mp distinct)
  obtain ⟨inside,value⟩ := List.getElem?_eq_some_iff.mp here
  obtain ⟨inside',value'⟩ := List.getElem?_eq_some_iff.mp there
  rcases Nat.lt_trichotomy a b with before | same | after
  · exact absurd (value.trans value'.symm) (pairs a b inside inside' before (value ▸ secret) (value' ▸ secret))
  · exact same
  · exact absurd (value'.trans value.symm) (pairs b a inside' inside after (value' ▸ secret) (value ▸ secret))

theorem repeated_of_not_distinct {names : List Bytes} (repeated : ¬ (names.filter p).Nodup) :
    ∃ (a b : Nat) (name : Bytes), names[a]? = some name ∧ names[b]? = some name ∧ b ≠ a ∧ p name := by
  rw [List.Nodup,pairwise_filter,pairwise_iff_getElem] at repeated
  push Not at repeated
  obtain ⟨a,b,inside,inside',before,secret,-,same⟩ := repeated
  refine ⟨a,b,names[a],getElem?_eq_getElem inside,?_,by omega,secret⟩
  rw [getElem?_eq_getElem inside',same]

theorem flows_ends {side e a name pipe rx tx} (apart : tx ≠ rx) (flows : Flows (n.ends rx) (n.ends tx) a name pipe)
    (recvs : rx = side → (E side).secured name → ∀ value,
      (n.ends side).Shows ((E side).recvSeq (n.ends side).state) a value → e.Shows ((E side).recvSeq e.state) a value)
    (sends : tx = side → (E rx).secured name → ∀ value,
      (n.ends side).Shows ((E side).sendSeq (n.ends side).state) a value → e.Shows ((E side).sendSeq e.state) a value) :
    Flows (update n.ends side e rx) (update n.ends side e tx) a name pipe := by
  by_cases into : rx = side
  · subst into
    rw [update_self,update_of_ne apart]
    exact flows.mono (recvs rfl) (fun _ up => ⟨up,fun _ shows => shows⟩)
  · obtain rfl : tx = side := by cases rx <;> cases tx <;> cases side <;> first | rfl | contradiction
    rw [update_self,update_of_ne into]
    exact flows.mono (fun _ _ shows => shows) (fun secret up => ⟨up,sends rfl secret⟩)

variable (E) in
def secret (name : Bytes) : Bool := (E .near).secured name || (E .far).secured name

theorem secret_of_secured {side name} (secured : (E side).secured name) : secret E name := by
  cases side <;> simp [secret,secured]

theorem absent_link (inv : Inv n) (side : Side) : n.links.length ∉ (n.ends side).handed.map Prod.fst := by
  intro mem
  obtain ⟨entry,among,same⟩ := mem_map.mp mem
  obtain ⟨link,found,-⟩ := inv.linked side entry among
  have inside := lt_of_getElem? found
  omega

theorem inv_append (inv : Inv n) (name : Bytes) (lan : Bool) :
    Inv { n with links := n.links ++ [⟨name,lan,fun _ => .idle⟩] } := by
  refine ⟨inv.ok,?_,?_⟩
  · intro side entry mem
    obtain ⟨link,found,same⟩ := inv.linked side entry mem
    exact ⟨link,getElem?_append_some found,same⟩
  · intro a link here rx tx apart
    rw [getElem?_append] at here
    split at here
    · exact inv.flows a link here rx tx apart
    · rw [getElem?_singleton] at here
      split at here
      · rename_i inside zero
        cases here
        have place : a = n.links.length := by omega
        rw [place]
        exact flows_idle (absent_link inv rx) (absent_link inv tx)
      · cases here

section
variable {i : Nat} {link : Link} (inv : Inv n) (here : n.links[i]? = some link)
include inv here

theorem fresh_secret {side}
    (new : i ∉ (n.ends side).handed.map Prod.fst) (distinct : ((n.links.map Link.name).filter (secret E)).Nodup)
    (hidden : secret E link.name) : link.name ∉ (n.ends side).handed.map Prod.snd := by
  intro mem
  obtain ⟨entry,among,same⟩ := mem_map.mp mem
  obtain ⟨link',found,named⟩ := inv.linked side entry among
  have one : (n.links.map Link.name)[i]? = some link.name := by rw [getElem?_map,here]; rfl
  have two : (n.links.map Link.name)[entry.1]? = some link.name := by
    rw [getElem?_map,found,← same,← named]; rfl
  rw [index_of_distinct distinct one two hidden] at new
  exact new (mem_map.mpr ⟨entry,among,rfl⟩)

theorem inv_give {side} (admits : (E side).admits link.name) (new : i ∉ (n.ends side).handed.map Prod.fst)
    (distinct : ((n.links.map Link.name).filter (secret E)).Nodup) :
    Inv { n with ends := update n.ends side ((n.ends side).give i link.name) } := by
  have fresh := fresh_secret inv here new distinct
  obtain ⟨-,sendSame,recvSame⟩ := (E side).hand_holds (inv.ok side).holds admits
  refine ⟨?_,?_,?_⟩
  · intro side'
    by_cases same : side' = side
    · subst same
      simp only [update_self]
      exact ok_give (inv.ok side') new admits (fun secured => fresh (secret_of_secured secured))
    · simp only [update_of_ne same]
      exact inv.ok side'
  · intro side' entry mem
    by_cases same : side' = side
    · subst same
      simp only [update_self] at mem
      rcases mem_snoc.mp mem with old | last
      · exact inv.linked side' entry old
      · rw [last]
        exact ⟨link,here,rfl⟩
    · simp only [update_of_ne same] at mem
      exact inv.linked side' entry mem
  · intro a other found rx tx apart
    have zero : secret E other.name = true → a = i →
        (E side).sendSeq (n.ends side).state ((E side).counter link.name (n.ends side).handed.length) = 0 ∧
        (E side).recvSeq (n.ends side).state ((E side).counter link.name (n.ends side).handed.length) = 0 := by
      rintro hidden rfl
      cases (here.symm.trans found : some link = some other)
      exact give_zero (inv.ok side) (fresh hidden)
    refine flows_ends apart (inv.flows a other found rx tx apart) ?_ ?_
    · intro _ secured value shows
      rw [End.give,recvSame]
      exact shows_give shows new (fun same => (zero (secret_of_secured secured) same).2)
    · intro _ secured value shows
      rw [End.give,sendSame]
      exact shows_give shows new (fun same => (zero (secret_of_secured secured) same).1)

theorem inv_set {ends : (side : Side) → End (E side)} {link' : Link} (name : link'.name = link.name) (ok : ∀ side, (ends side).Ok)
    (handed : ∀ side, (ends side).handed = (n.ends side).handed)
    (flowsHere : ∀ rx tx, tx ≠ rx → Flows (ends rx) (ends tx) i link.name (link'.toward rx))
    (flowsElse : ∀ a link, a ≠ i → n.links[a]? = some link → ∀ rx tx, tx ≠ rx →
      Flows (ends rx) (ends tx) a link.name (link.toward rx)) :
    Inv { n with ends := ends, links := n.links.set i link' } := by
  refine ⟨ok,?_,?_⟩
  · intro side entry mem
    simp only [handed side] at mem
    obtain ⟨old,found,same⟩ := inv.linked side entry mem
    by_cases index : entry.1 = i
    · rw [index] at found
      cases (here.symm.trans found : some link = some old)
      refine ⟨link',?_,name.trans same⟩
      rw [index,getElem?_set_found here]
    · exact ⟨old,by rw [getElem?_set_ne (Ne.symm index)]; exact found,same⟩
  · intro a found there rx tx apart
    rcases getElem?_set_cases there with ⟨rfl,rfl⟩ | ⟨index,old⟩
    · rw [name]
      exact flowsHere rx tx apart
    · exact flowsElse a found index old rx tx apart

end

theorem setEnd_handed (n : Net E) (side : Side) (s : (E side).State) (side' : Side) :
    (n.setEnd side s side').handed = (n.ends side').handed := by
  by_cases same : side' = side
  · subst same
    rw [Net.setEnd,update_self]
  · rw [Net.setEnd,update_of_ne same]

theorem setEnd_ok (inv : Inv n) {side s} (ok : ({ n.ends side with state := s } : End (E side)).Ok)
    (side' : Side) : (n.setEnd side s side').Ok := by
  by_cases same : side' = side
  · subst same
    rw [Net.setEnd,update_self]
    exact ok
  · rw [Net.setEnd,update_of_ne same]
    exact inv.ok side'

theorem put_toward_self (link : Link) (side : Side) (p : Pipe) : (link.put side p).toward side = p := by
  simp [Link.put]

theorem put_toward_other (link : Link) {side side' : Side} (apart : side' ≠ side) (p : Pipe) :
    (link.put side p).toward side' = link.toward side' := by
  simp [Link.put,update_of_ne apart]

section
variable {side : Side} {j i : Nat} {link : Link}

variable {msg : Bytes}

section
variable (matched : Matched E) (inv : Inv n) (held : (n.ends side).handed[j]? = some (i,link.name))
  (here : n.links[i]? = some link) (within : msg.length + 24 ≤ maxMessageSize)
include matched inv held here within

theorem inv_send_clear (unsecured : (E side).secured link.name = false) :
    Inv { n with links := n.links.set i (link.put (other side) ((link.toward (other side)).write
      (if (link.toward (other side)).writable then some (frame msg) else none) msg)) } := by
  refine inv_set inv here rfl inv.ok (fun _ => rfl) ?_ (fun a link _ there => inv.flows a link there)
  intro rx tx apart
  by_cases into : rx = other side
  · subst into
    obtain rfl : tx = side := by cases tx <;> cases side <;> first | rfl | exact absurd rfl apart
    rw [put_toward_self]
    intro readable admits
    have plain : (E (other tx)).secured link.name = false := by
      rw [← matched.secured _ tx _ admits ((inv.ok tx).admitted _ (mem_of_getElem? held))]
      exact unsecured
    exact flows_clear (inv.flows i link here (other tx) tx apart) plain within readable admits
  · rw [put_toward_other link into]
    exact inv.flows i link here rx tx apart

theorem inv_send_sealed (secured : (E side).secured link.name) {s : (E side).State}
    (holds : (E side).Holds ((n.ends side).handed.map Prod.snd) s)
    (sends : (E side).sendSeq s = update ((E side).sendSeq (n.ends side).state) ((E side).counter link.name j)
      ((E side).sendSeq (n.ends side).state ((E side).counter link.name j) + 1))
    (recvs : (E side).recvSeq s = (E side).recvSeq (n.ends side).state) :
    Inv { n with
      ends := n.setEnd side s
      links := n.links.set i (link.put (other side) ((link.toward (other side)).write
        (if (link.toward (other side)).writable then some (frame (packet aead ((E side).sendKey link.name)
          ((E side).sendSeq (n.ends side).state ((E side).counter link.name j)) msg)) else none) msg)) } := by
  have shown : ∀ {a : Nat} {value : UInt64}, (n.ends side).Shows ((E side).sendSeq (n.ends side).state) a value → _ :=
    fun shows => shows_update (s := s) (inv.ok side) held secured shows
  have ok : ({ n.ends side with state := s } : End (E side)).Ok := by
    refine ok_update (inv.ok side) holds held ?_
    intro c differ
    rw [sends,recvs,update_of_ne differ]
    exact ⟨rfl,rfl⟩
  refine inv_set inv here rfl (setEnd_ok inv ok) (setEnd_handed n side _) ?_ ?_
  · intro rx tx apart
    by_cases into : rx = other side
    · subst into
      obtain rfl : tx = side := by cases tx <;> cases side <;> first | rfl | exact absurd rfl apart
      rw [put_toward_self,Net.setEnd,update_self,update_of_ne (other_ne tx)]
      intro readable admits
      have admits' := (inv.ok tx).admitted _ (mem_of_getElem? held)
      have hidden := matched.secured _ tx _ admits admits'
      rw [secured] at hidden
      rw [matched.keys _ tx _ apart admits admits'] at readable ⊢
      refine flows_sealed (inv.flows i link here (other tx) tx apart) hidden.symm within ?_ ?_ readable admits
      · intro value shows
        exact (shows.1 j _ held).symm
      · intro value shows
        have later := shown shows
        rw [if_pos rfl] at later
        rw [sends]
        exact later
    · rw [put_toward_other link into]
      have back : tx ≠ side := fun same => into (eq_other (fun equal => apart (same.trans equal.symm)))
      refine flows_ends apart (inv.flows i link here rx tx apart) ?_ (fun equal => absurd equal back)
      intro _ _ value shows
      rw [recvs]
      exact shows
  · intro a other index there rx tx apart
    refine flows_ends apart (inv.flows a other there rx tx apart) ?_ ?_
    · intro _ _ value shows
      rw [recvs]
      exact shows
    · intro _ _ value shows
      have later := shown shows
      rw [if_neg index] at later
      rw [sends]
      exact later

end

theorem held_of_linkOf (inv : Inv n) (found : n.linkOf side j = some (i,link)) :
    (n.ends side).handed[j]? = some (i,link.name) ∧ n.links[i]? = some link := by
  obtain ⟨name,held,here⟩ := linkOf_eq_some found
  obtain ⟨_,again,named⟩ := inv.linked side _ (mem_of_getElem? held)
  cases (here.symm.trans again : some link = some _)
  exact ⟨by rw [named]; exact held,here⟩

theorem inv_send (matched : Matched E) (inv : Inv n) (found : n.linkOf side j = some (i,link))
    (within : msg.length + 24 ≤ maxMessageSize) : Inv (step n (.send side j msg)).1 := by
  obtain ⟨held,here⟩ := held_of_linkOf inv found
  simp only [step,found]
  cases secured : (E side).secured link.name with
  | false =>
    rw [(E side).send_clear _ (inv.ok side).holds (names_getElem? held) secured (by omega)]
    have same : n.setEnd side (n.ends side).state = n.ends := update_eq_self side n.ends
    rw [same]
    exact inv_send_clear matched inv held here within secured
  | true =>
    obtain ⟨holds,octets,sends,recvs⟩ :=
      (E side).send_secured msg (link.toward (other side)).writable (inv.ok side).holds (names_getElem? held) secured
        within
    rw [octets]
    exact inv_send_sealed matched inv held here within secured holds sends recvs

theorem inv_read (inv : Inv n) (here : n.links[i]? = some link) {s : (E side).State} {rest : Bytes}
    (ok : ({ n.ends side with state := s } : End (E side)).Ok)
    (sends : (E side).sendSeq s = (E side).sendSeq (n.ends side).state)
    (recvs : ∀ a, a ≠ i → ∀ value, (n.ends side).Shows ((E side).recvSeq (n.ends side).state) a value →
      (n.ends side).Shows ((E side).recvSeq s) a value)
    (flows : Flows ({ n.ends side with state := s } : End (E side)) (n.ends (other side)) i link.name
      ((link.toward side).read rest)) :
    Inv { n with
      ends := n.setEnd side s
      links := n.links.set i (link.put side ((link.toward side).read rest)) } := by
  refine inv_set inv here rfl (setEnd_ok inv ok) (setEnd_handed n side _) ?_ ?_
  · intro rx tx apart
    by_cases into : rx = side
    · subst into
      obtain rfl := eq_other apart
      rw [put_toward_self,Net.setEnd,update_self,update_of_ne apart]
      exact flows
    · rw [put_toward_other link into]
      refine flows_ends apart (inv.flows i link here rx tx apart) (fun equal => absurd equal into) ?_
      intro _ _ value shows
      rw [sends]
      exact shows
  · intro a other index there rx tx apart
    refine flows_ends apart (inv.flows a other there rx tx apart) (fun _ _ => recvs a index) ?_
    intro _ _ value shows
    rw [sends]
    exact shows

def Reads (n : Net E) (side : Side) (j : Nat) (link : Link) (bufLen : Nat) : Prop :=
  Inv (step n (.recv side j bufLen)).1 ∧ (step n (.recv side j bufLen)).2 = (link.toward side).pending.head?

theorem reads_clear (inv : Inv n) (found : n.linkOf side j = some (i,link)) (readable : (link.toward side).readable)
    (bufLen : Nat) (plain : (E side).secured link.name = false) : Reads n side j link bufLen := by
  obtain ⟨held,here⟩ := held_of_linkOf inv found
  have admits := (inv.ok side).admitted _ (mem_of_getElem? held)
  obtain ⟨small,clear,-⟩ := inv.flows i link here side (other side) (other_ne side) readable admits
  have octets := clear plain
  have left : ∀ later, (link.toward side).pending.tail = later →
      Flows (n.ends side) (n.ends (other side)) i link.name ((link.toward side).read (later.flatMap frame)) := by
    rintro later rfl _ _
    refine ⟨?_,fun _ => rfl,fun secret => absurd (plain.symm.trans secret) (by decide)⟩
    intro msg mem
    exact small msg (mem_of_mem_tail mem)
  simp only [Reads,step,found,readable,if_true]
  cases pending : (link.toward side).pending with
  | nil =>
    rw [pending] at octets
    rw [octets]
    simp only [flatMap_nil,(E side).recv_nothing]
    exact ⟨inv_read inv here (inv.ok side) rfl (fun _ _ _ shows => shows) (left [] (by rw [pending]; rfl)),rfl⟩
  | cons p later =>
    rw [pending,flatMap_cons] at octets
    have within := small p (by rw [pending]; exact mem_cons_self)
    rw [octets,(E side).recv_clear _ (inv.ok side).holds (names_getElem? held) plain (by omega)]
    exact ⟨inv_read inv here (inv.ok side) rfl (fun _ _ _ shows => shows) (left later (by rw [pending]; rfl)),rfl⟩

theorem flows_rest {rx : End (E side)} {tx : End (E (other side))} {pipe : Pipe} {name : Bytes} {s : (E side).State}
    (rest : List (UInt64 × Bytes)) {number : UInt64} (hidden : (E side).secured name)
    (small : ∀ msg ∈ pipe.pending, msg.length + 24 ≤ maxMessageSize) (payloads : rest.map Prod.snd = pipe.pending.tail)
    (counts : CountsFrom (· + 1) number (rest.map Prod.fst)) (shows : rx.Shows ((E side).recvSeq s) i number)
    (ahead : pipe.writable → tx.Shows ((E (other side)).sendSeq tx.state) i (number + UInt64.ofNat rest.length)) :
    Flows ({ rx with state := s } : End (E side)) tx i name
      (pipe.read ((rest.map (numbered aead ((E side).recvKey name))).flatMap frame)) := by
  intro _ _
  refine ⟨?_,fun plain => absurd (hidden.symm.trans plain) (by decide),
    fun _ => ⟨rest,number,rfl,payloads,counts,shows,ahead⟩⟩
  intro msg mem
  exact small msg (mem_of_mem_tail mem)

theorem reads_sealed (inv : Inv n) (found : n.linkOf side j = some (i,link))
    (readable : (link.toward side).readable) {bufLen : Nat} (hidden : (E side).secured link.name)
    (room : ∀ msg ∈ (link.toward side).pending.head?, (E side).fits msg.length bufLen) :
    Reads n side j link bufLen := by
  obtain ⟨held,here⟩ := held_of_linkOf inv found
  have admits := (inv.ok side).admitted _ (mem_of_getElem? held)
  obtain ⟨small,-,secured⟩ := inv.flows i link here side (other side) (other_ne side) readable admits
  obtain ⟨items,expected,octets,payloads,counts,shows,next⟩ := secured hidden
  simp only [Reads,step,found,readable,if_true]
  cases items with
  | nil =>
    have none : (link.toward side).pending = [] := payloads.symm
    rw [octets,none]
    simp only [map_nil,flatMap_nil,(E side).recv_nothing]
    refine ⟨inv_read inv here (inv.ok side) rfl (fun _ _ _ shows => shows) ?_,rfl⟩
    exact flows_rest [] hidden small (by rw [none]; rfl) trivial shows next
  | cons item rest =>
    obtain ⟨number,p⟩ := item
    obtain ⟨rfl,countsRest⟩ := counts
    have pending : (link.toward side).pending = p :: rest.map Prod.snd := payloads.symm
    have within := small p (by rw [pending]; exact mem_cons_self)
    have fits := room p (by rw [pending]; rfl)
    have expects : (E side).recvSeq (n.ends side).state ((E side).counter link.name j) = number := shows.1 j _ held
    obtain ⟨s,got,holds,sends,recvs⟩ := (E side).recv_expected
      ((rest.map (numbered aead ((E side).recvKey link.name))).flatMap frame) (inv.ok side).holds (names_getElem? held)
      hidden within fits
    rw [expects] at got
    have shown : ∀ {a : Nat} {value : UInt64}, (n.ends side).Shows ((E side).recvSeq (n.ends side).state) a value →
        (n.ends side).Shows ((E side).recvSeq s) a (if a = i then value + 1 else value) := by
      intro a value before
      rw [recvs]
      exact shows_update (s := s) (inv.ok side) held hidden before
    rw [octets,map_cons,flatMap_cons,numbered,got,pending]
    refine ⟨inv_read inv here ?_ sends ?_ (flows_rest rest hidden small ?_ countsRest ?_ ?_),rfl⟩
    · refine ok_update (inv.ok side) holds held ?_
      intro c differ
      rw [sends,recvs,update_of_ne differ]
      exact ⟨rfl,rfl⟩
    · intro a index value before
      have after := shown before
      rw [if_neg index] at after
      exact after
    · rw [pending]; rfl
    · have after := shown shows
      rw [if_pos rfl] at after
      exact after
    · intro writable
      have ahead := next writable
      rw [length_cons,Nat.add_comm rest.length 1,UInt64.ofNat_add,← UInt64.add_assoc] at ahead
      exact ahead

theorem inv_reset (inv : Inv n) {i : Nat} {link} (here : n.links[i]? = some link) :
    Inv { n with links := n.links.set i link.reset } := by
  refine inv_set inv here rfl inv.ok (fun _ => rfl) ?_ (fun a link _ there => inv.flows a link there)
  intro rx tx _ impossible
  cases impossible

theorem inv_closeWrite (inv : Inv n) (here : n.links[i]? = some link) (side : Side) :
    Inv { n with links := n.links.set i (link.put side { link.toward side with writable := false }) } := by
  refine inv_set inv here rfl inv.ok (fun _ => rfl) ?_ (fun a link _ there => inv.flows a link there)
  intro rx tx apart
  by_cases into : rx = side
  · subst into
    rw [put_toward_self]
    exact (inv.flows i link here rx tx apart).mono (fun _ _ shows => shows) (fun _ up => Bool.noConfusion up)
  · rw [put_toward_other link into]
    exact inv.flows i link here rx tx apart

end

theorem inv_closeOld (inv : Inv n) : Inv (step n .closeOld).1 := by
  refine ⟨inv.ok,?_,?_⟩
  · intro side entry mem
    obtain ⟨link,found,same⟩ := inv.linked side entry mem
    refine ⟨if link.lan then link else link.reset,by simp [step,found],?_⟩
    split
    · exact same
    · exact same
  · intro a link here rx tx apart
    simp only [step,getElem?_map,Option.map_eq_some_iff] at here
    obtain ⟨before,found,rfl⟩ := here
    split
    · exact inv.flows a before found rx tx apart
    · intro impossible
      cases impossible

theorem names_step (n : Net E) (e : Event) :
    ((step n e).1.links.map Link.name).Sublist (n.links.map Link.name ++ opened [e]) := by
  have kept : (n.links.map Link.name).Sublist (n.links.map Link.name ++ opened [e]) := sublist_append_left _ _
  have set : ∀ {side : Side} {j i : Nat} {link link' : Link}, n.linkOf side j = some (i,link) → link'.name = link.name →
      ((n.links.set i link').map Link.name).Sublist (n.links.map Link.name ++ opened [e]) := by
    intro side j i link link' found same
    obtain ⟨_,-,here⟩ := linkOf_eq_some found
    rw [map_set_same Link.name here same]
    exact sublist_append_left _ _
  cases e with
  | connect side name =>
    simp only [step]
    split
    · simp [opened]
    · exact kept
  | accept side i =>
    simp only [step]
    split
    · exact kept
    · split
      · exact kept
      · exact kept
  | send side j msg | closeWrite side j | reset side j =>
    simp only [step]
    split
    · exact kept
    · rename_i found
      exact set found (by rfl)
  | recv side j bufLen =>
    simp only [step]
    split
    · exact kept
    · rename_i found
      split
      · exact set found (by rfl)
      · exact kept
  | swapTransport => exact kept
  | closeOld =>
    have same : (n.links.map (fun link => if link.lan then link else link.reset)).map Link.name = n.links.map Link.name := by
      rw [map_map]
      refine map_congr_left ?_
      intro link _
      simp only [comp]
      split <;> rfl
    simp only [step,same]
    exact kept

theorem recv_accepts (inv : Inv n) {side j bufLen} (fits : Fits n (.recv side j bufLen)) :
    Inv (step n (.recv side j bufLen)).1 ∧ Accepts n (.recv side j bufLen) := by
  cases found : n.linkOf side j with
  | none => exact ⟨by simpa only [step,found] using inv,by simp [Accepts,Net.next,found]⟩
  | some entry =>
    obtain ⟨i,link⟩ := entry
    by_cases readable : (link.toward side).readable = true
    · have next : n.next side j = (link.toward side).pending.head? := by simp [Net.next,found,readable]
      have reads : Reads n side j link bufLen := by
        cases hidden : (E side).secured link.name with
        | false => exact reads_clear inv found readable bufLen hidden
        | true => exact reads_sealed inv found readable hidden (by simpa only [Fits,next] using fits)
      refine ⟨reads.1,?_⟩
      intro msg head
      rw [reads.2,← next]
      exact head
    · have silent : n.next side j = none := by simp [Net.next,found,readable]
      exact ⟨by simpa [step,found,readable] using inv,by simp [Accepts,silent]⟩

theorem step_accepts (matched : Matched E) (inv : Inv n) (e : Event)
    (distinct : ((n.links.map Link.name ++ opened [e]).filter (secret E)).Nodup) (fits : Fits n e) :
    Inv (step n e).1 ∧ Accepts n e := by
  cases e with
  | connect side name =>
    refine ⟨?_,trivial⟩
    simp only [step]
    split
    · rename_i admits
      have appended := inv_append inv name n.onLAN
      have last : (n.links ++ [⟨name,n.onLAN,fun _ => .idle⟩])[n.links.length]? =
          some (⟨name,n.onLAN,fun _ => .idle⟩ : Link) := by simp
      exact inv_give appended last admits (absent_link inv side) (by simpa [opened] using distinct)
    · exact inv
  | accept side i =>
    refine ⟨?_,trivial⟩
    simp only [step]
    split
    · exact inv
    · rename_i link here
      split
      · rename_i free
        exact inv_give inv here free.1 free.2 (by simpa [opened] using distinct)
      · exact inv
  | send side j msg =>
    refine ⟨?_,trivial⟩
    cases found : n.linkOf side j with
    | none => simpa only [step,found] using inv
    | some entry => exact inv_send matched inv found fits
  | recv side j bufLen => exact recv_accepts inv fits
  | closeWrite side j =>
    refine ⟨?_,trivial⟩
    cases found : n.linkOf side j with
    | none => simpa only [step,found] using inv
    | some entry =>
      simp only [step,found]
      exact inv_closeWrite inv (held_of_linkOf inv found).2 (other side)
  | reset side j =>
    refine ⟨?_,trivial⟩
    cases found : n.linkOf side j with
    | none => simpa only [step,found] using inv
    | some entry =>
      simp only [step,found]
      exact inv_reset inv (held_of_linkOf inv found).2
  | swapTransport => exact ⟨{ inv with },trivial⟩
  | closeOld => exact ⟨inv_closeOld inv,trivial⟩

theorem accepts_run (matched : Matched E) (inv : Inv n) {events}
    (distinct : ((n.links.map Link.name ++ opened events).filter (secret E)).Nodup)
    (fits : Along step Fits n events) : Along step Accepts n events := by
  induction events generalizing n with
  | nil => trivial
  | cons e rest ih =>
    have split : opened (e :: rest) = opened [e] ++ opened rest := filterMap_append (l := [e])
    rw [split,← append_assoc,filter_append] at distinct
    obtain ⟨next,accepts⟩ := step_accepts matched inv e (nodup_append.mp distinct).1 fits.1
    refine ⟨accepts,ih next ?_ fits.2⟩
    rw [← filter_append] at distinct
    exact distinct.sublist (((names_step n e).append_right (opened rest)).filter _)

structure Opened (names : List Bytes) (n : Net E) : Prop where
  holds : (E .near).Holds names (n.ends .near).state
  unsent : ∀ c, (E .near).sendSeq (n.ends .near).state c = 0
  handed : (n.ends .near).handed = names.mapIdx (fun i name => (i,name))
  far : n.ends .far = ⟨(E .far).start,[]⟩
  links : n.links = names.map (fun name => ⟨name,n.onLAN,fun _ => .idle⟩)

theorem opened_connect {names name} (opened : Opened names n)
    (admits : (E .near).admits name) : Opened (names ++ [name]) (step n (.connect .near name)).1 := by
  obtain ⟨holds,sendSame,-⟩ := (E .near).hand_holds opened.holds admits
  have count : n.links.length = names.length := by rw [opened.links,length_map]
  simp only [step,admits,if_true]
  refine ⟨?_,?_,?_,?_,?_⟩
  · simpa [End.give] using holds
  · intro c
    simp only [update_self,End.give,sendSame]
    exact opened.unsent c
  · simp [End.give,opened.handed,count,mapIdx_concat]
  · simpa using opened.far
  · simp [opened.links]

theorem opened_connects {names before} (opened : Opened before n) (admits : ∀ name ∈ names, (E .near).admits name) :
    Opened (before ++ names) (final step n (names.map (.connect .near))) := by
  induction names generalizing n before with
  | nil => simpa using opened
  | cons name rest ih =>
    obtain ⟨first,later⟩ := forall_mem_cons.mp admits
    have next := ih (opened_connect opened first) later
    rw [append_assoc] at next
    exact next

theorem opened_idle : Opened [] (idle E) := ⟨(E .near).holds_start,(E .near).sendSeq_start,rfl,rfl,rfl⟩

theorem step_send_sealed {side} {j i : Nat} {link name} (msg : Bytes)
    (found : n.linkOf side j = some (i,link)) (holds : (E side).Holds ((n.ends side).handed.map Prod.snd) (n.ends side).state)
    (held : (n.ends side).handed[j]? = some (i,name)) (secured : (E side).secured name)
    (up : (link.toward (other side)).writable) (within : msg.length + 24 ≤ maxMessageSize) :
    ∃ s, (E side).Holds ((n.ends side).handed.map Prod.snd) s ∧
      (E side).sendSeq s = update ((E side).sendSeq (n.ends side).state) ((E side).counter name j)
        ((E side).sendSeq (n.ends side).state ((E side).counter name j) + 1) ∧
      (step n (.send side j msg)).1 = { n with
          ends := n.setEnd side s
          links := n.links.set i (link.put (other side) ((link.toward (other side)).write (some (frame (packet aead
            ((E side).sendKey name) ((E side).sendSeq (n.ends side).state ((E side).counter name j)) msg))) msg)) } := by
  obtain ⟨later,octets,sends,-⟩ := (E side).send_secured msg true holds (names_getElem? held) secured within
  exact ⟨_,later,sends,by simp only [step,found,up,octets,if_true]⟩

theorem linkOf_of {side j i name link} (held : (n.ends side).handed[j]? = some (i,name))
    (here : n.links[i]? = some link) : n.linkOf side j = some (i,link) := by
  simp [Net.linkOf,held,here]

theorem setEnd_self (n : Net E) (side : Side) (s : (E side).State) :
    n.setEnd side s side = { n.ends side with state := s } := update_self side _ n.ends

theorem setEnd_other (n : Net E) {side side'} (apart : side' ≠ side) (s : (E side).State) :
    n.setEnd side s side' = n.ends side' := update_of_ne apart _ n.ends

theorem not_accepts_of_unexpected {side} {j i : Nat} {link name p} (bufLen : Nat) (seq : UInt64)
    (found : n.linkOf side j = some (i,link)) (holds : (E side).Holds ((n.ends side).handed.map Prod.snd) (n.ends side).state)
    (held : (n.ends side).handed[j]? = some (i,name)) (secured : (E side).secured name)
    (within : p.length + 24 ≤ maxMessageSize) (readable : (link.toward side).readable)
    (octets : (link.toward side).octets = frame (packet aead ((E side).recvKey name) seq p))
    (pending : (link.toward side).pending = [p])
    (unexpected : seq ≠ (E side).recvSeq (n.ends side).state ((E side).counter name j)) :
    n.next side j = some p ∧ ¬ Accepts n (.recv side j bufLen) := by
  have next : n.next side j = some p := by simp [Net.next,found,readable,pending]
  refine ⟨next,?_⟩
  intro accepts
  have got := accepts p next
  have rejected := (E side).recv_unexpected [] bufLen holds (names_getElem? held) secured within unexpected
  rw [append_nil,← octets] at rejected
  simp only [step,found,readable,if_true] at got
  rw [rejected] at got
  cases got

section
variable {names : List Bytes} {i i' : Nat} {name : Bytes}

theorem handed_opened (opened : Opened names n) (here : names[i]? = some name) :
    (n.ends .near).handed[i]? = some (i,name) := by
  rw [opened.handed,getElem?_mapIdx,here]
  rfl

theorem links_opened (opened : Opened names n) (here : names[i]? = some name) :
    n.links[i]? = some ⟨name,n.onLAN,fun _ => .idle⟩ := by
  rw [opened.links,getElem?_map,here]
  rfl

theorem holds_opened (opened : Opened names n) :
    (E .near).Holds ((n.ends .near).handed.map Prod.snd) (n.ends .near).state := by
  have same : (n.ends .near).handed.map Prod.snd = names := by
    rw [opened.handed]
    exact ext_getElem? (fun a => by simp)
  rw [same]
  exact opened.holds

theorem accept_opened (opened : Opened names n) (there : names[i']? = some name) (admits : (E .far).admits name) :
    (step n (.accept .far i')).1 = { n with
      ends := update n.ends .far ((⟨(E .far).start,[]⟩ : End (E .far)).give i' name) } := by
  simp only [step,links_opened opened there,opened.far,admits]
  simp

theorem second_numbered {lan} (holds : (E .near).Holds ((n.ends .near).handed.map Prod.snd) (n.ends .near).state)
    (unsent : ∀ c, (E .near).sendSeq (n.ends .near).state c = 0) (held : (n.ends .near).handed[i]? = some (i,name))
    (held' : (n.ends .near).handed[i']? = some (i',name)) (here : n.links[i]? = some ⟨name,lan,fun _ => .idle⟩)
    (there : n.links[i']? = some ⟨name,lan,fun _ => .idle⟩) (apart : i' ≠ i) (secured : (E .near).secured name)
    (shared : (E .near).counter name i' = (E .near).counter name i) :
    (final step n [.send .near i [],.send .near i' []]).ends .far = n.ends .far ∧
      ∃ link, (final step n [.send .near i [],.send .near i' []]).links[i']? = some link ∧
        link.toward .far = ⟨frame (packet aead ((E .near).sendKey name) 1 []),[[]],true,true⟩ := by
  have small : ([] : Bytes).length + 24 ≤ maxMessageSize := by decide
  obtain ⟨s,holds₁,sends,first⟩ := step_send_sealed [] (linkOf_of held here) holds held secured rfl small
  simp only [final_cons,final_nil]
  obtain ⟨m,sent⟩ : ∃ m, m = (step n (.send .near i [])).1 := ⟨_,rfl⟩
  rw [← sent]
  rw [first] at sent
  have nearEnd : m.ends .near = { n.ends .near with state := s } := by rw [sent]; exact setEnd_self n .near s
  have again : (m.ends .near).handed[i']? = some (i',name) := by rw [nearEnd]; exact held'
  have still : m.links[i']? = some ⟨name,lan,fun _ => .idle⟩ := by
    rw [sent]
    simp only [getElem?_set_ne (Ne.symm apart)]
    exact there
  have number : (E .near).sendSeq (m.ends .near).state ((E .near).counter name i') = 1 := by
    rw [nearEnd,sends,shared,update_self,unsent]
    rfl
  obtain ⟨s',-,-,second⟩ := step_send_sealed [] (linkOf_of again still) (by rw [nearEnd]; exact holds₁) again secured
    rfl small
  rw [second,number]
  constructor
  · refine (setEnd_other m (show Side.far ≠ .near by decide) s').trans ?_
    rw [sent]
    exact setEnd_other n (show Side.far ≠ .near by decide) s
  · exact ⟨_,getElem?_set_found still,put_toward_self _ Side.far _⟩

theorem opened_rejects (matched : Matched E) (opened : Opened names n) (here : names[i]? = some name)
    (there : names[i']? = some name) (apart : i' ≠ i) (admits : (E .near).admits name)
    (admits' : (E .far).admits name) (secured : (E .near).secured name)
    (shared : (E .near).counter name i' = (E .near).counter name i) (empty : (E .far).fits 0 0) :
    Along step Fits n [.accept .far i',.send .near i [],.send .near i' [],.recv .far 0 0] ∧
      ¬ Along step Accepts n [.accept .far i',.send .near i [],.send .near i' [],.recv .far 0 0] := by
  have small : ([] : Bytes).length + 24 ≤ maxMessageSize := by decide
  obtain ⟨m,accepted⟩ : ∃ m, m = (step n (.accept .far i')).1 := ⟨_,rfl⟩
  have given := accepted.trans (accept_opened opened there admits')
  have nearEnd : m.ends .near = n.ends .near := by
    rw [given]
    simp only [update_of_ne (show Side.near ≠ .far by decide)]
  have farEnd : m.ends .far = (⟨(E .far).start,[]⟩ : End (E .far)).give i' name := by
    rw [given]
    exact update_self Side.far _ n.ends
  have links : m.links = n.links := by rw [given]
  obtain ⟨farEnd',link,linked,pipe⟩ := second_numbered (n := m) (by rw [nearEnd]; exact holds_opened opened)
    (by rw [nearEnd]; exact opened.unsent) (by rw [nearEnd]; exact handed_opened opened here)
    (by rw [nearEnd]; exact handed_opened opened there) (by rw [links]; exact links_opened opened here)
    (by rw [links]; exact links_opened opened there) apart secured shared
  rw [farEnd] at farEnd'
  have held : ((final step m [.send .near i [],.send .near i' []]).ends .far).handed[0]? = some (i',name) := by
    rw [farEnd']
    rfl
  obtain ⟨holds,-,recvSame⟩ := (E .far).hand_holds (E .far).holds_start admits'
  have rejects := not_accepts_of_unexpected (p := []) 0 1 (linkOf_of held linked) (by rw [farEnd']; exact holds) held
    (by rw [← matched.secured .far .near name admits' admits]; exact secured) small
    (congrArg Pipe.readable pipe)
    (by rw [← matched.keys .far .near name (by decide) admits' admits]; exact congrArg Pipe.octets pipe)
    (congrArg Pipe.pending pipe)
    (by
      rw [farEnd',End.give]
      simp only [recvSame,(E .far).recvSeq_start]
      decide)
  simp only [along_cons,along_nil,and_true]
  rw [← accepted]
  refine ⟨⟨trivial,small,small,?_⟩,fun accepts => rejects.2 accepts.2.2.2⟩
  intro msg next
  cases (rejects.1.symm.trans next : some _ = some _)
  exact empty

theorem shared_counter_rejects (matched : Matched E) (here : names[i]? = some name) (there : names[i']? = some name)
    (apart : i' ≠ i) (admitted : ∀ name ∈ names, (E .near).admits name) (admits : (E .far).admits name)
    (secured : (E .near).secured name) (shared : (E .near).counter name i' = (E .near).counter name i)
    (empty : (E .far).fits 0 0) :
    ∃ events, opened events = names ∧ Along step Fits (idle E) events ∧ ¬ Along step Accepts (idle E) events := by
  have start := opened_connects opened_idle admitted
  rw [nil_append] at start
  obtain ⟨fits,rejects⟩ := opened_rejects matched start here there apart (admitted name (mem_of_getElem? here))
    admits secured shared empty
  have quiet : Along step Fits (idle E) (names.map (.connect .near)) := by
    refine along_mono ?_ (along_of_forall (P := fun e => ∃ name, e = .connect .near name) ?_)
    · rintro n e ⟨name,rfl⟩
      trivial
    · intro e mem
      obtain ⟨name,-,rfl⟩ := mem_map.mp mem
      exact ⟨name,rfl⟩
  refine ⟨names.map (.connect .near) ++ [.accept .far i',.send .near i [],.send .near i' [],.recv .far 0 0],?_,?_,?_⟩
  · simp [opened,filterMap_map]
  · exact (along_append _ _ _ _ _).mpr ⟨quiet,fits⟩
  · intro accepts
    exact rejects ((along_append _ _ _ _ _).mp accepts).2

end

end

end Pigeon.Multiplex
