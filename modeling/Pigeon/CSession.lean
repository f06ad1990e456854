import Pigeon.Framing
import Pigeon.KeySchedule

/-!
The session of the C library (`pigeon.c`, `listener.c`). Every stream object gets a channel
of its own under the key of its name, with its counters at zero. So the session repeats a
(key, nonce) pair as soon as a second object of a name sends, and only then
(`nonces_fresh_iff`).
-/
namespace Pigeon.CSession
open Octets Sealing Runs Sequence Crypto Framing KeySchedule List

def pigeonMaxMsg : Nat := 1048576
def pigeonMaxNameLen : Nat := 64
def pigeonMaxStreamHeader : Nat := 266
def pigeonSessionMaxIncoming : Nat := 8

/-- `pigeon_stream`: a name and the stream's own channel, or none in a session without keys. -/
structure Stream where
  name : Bytes
  aead : Option Channel

/-- `pigeon_session`, with the stream objects bound so far and the key and nonce of every encryption. -/
structure Session where
  keys : Option SessionMaterial
  primary : Bool
  incoming : List (Option Bytes)
  streams : List Stream
  log : List (Key × Bytes)

inductive Call
  /-- `pigeon_session_open_stream`, with whether the transport opens a stream and takes the header. -/
  | openStream (name : Bytes) (opens takes : Bool)
  /-- `pigeon_session_accept_incoming_stream` with the headers that arrive; `none` cannot be received. -/
  | acceptIncoming (name : Bytes) (arrivals : List (Option Bytes))
  | primary
  | send (i : Nat) (msg : Bytes)

section
variable (aead : Aead) (hmac : Bytes → Bytes → Key)

/-- `pigeon_session_stream_aead`. -/
def streamAead (m : SessionMaterial) (name : Bytes) : Option Channel :=
  if pigeonMaxNameLen ≤ (cstr name).length then none
  else do
    let sk ← diversifyKey hmac m.sendKey (streamInfo (cstr name))
    let rk ← diversifyKey hmac m.recvKey (streamInfo (cstr name))
    return channelInit sk rk .strict

theorem streamAead_eq (m : SessionMaterial) {name} (short : (cstr name).length < pigeonMaxNameLen) :
    streamAead hmac m name = some (channelInit (forkKey hmac m.sendKey (streamInfo (cstr name)))
      (forkKey hmac m.recvKey (streamInfo (cstr name))) .strict) := by
  have fits : (cstr name).length ≤ 238 := by unfold pigeonMaxNameLen at short; omega
  rw [streamAead,if_neg (Nat.not_le.mpr short)]
  exact (streamChannel_eq hmac m (cstr name)).trans (if_pos fits)

/-- `pigeon_stream_bind_aead`. -/
def bindAead (s : Session) (name : Bytes) : Session × Bool :=
  match s.keys with
  | none => ({ s with streams := s.streams ++ [⟨cstr name,none⟩] },true)
  | some m =>
    match streamAead hmac m name with
    | none => (s,false)
    | some ch => ({ s with streams := s.streams ++ [⟨cstr name,some ch⟩] },true)

/-- `pigeon_session_open_stream`. -/
def openStream (s : Session) (name : Bytes) (opens takes : Bool) : Session × Bool :=
  if (cstr name).length = 0 ∨ pigeonMaxNameLen ≤ (cstr name).length then (s,false)
  else if !opens then (s,false)
  else
    match wireStreamHeaderEncode (cstr name) pigeonMaxStreamHeader with
    | none => (s,false)
    | some _ => if takes then bindAead hmac s (cstr name) else (s,false)

def findIncoming (slots : List (Option Bytes)) (name : Bytes) : Option Nat :=
  slots.findIdx? (fun slot => match slot with
    | none => false
    | some parked => cstr parked = cstr name)

def park (slots : List (Option Bytes)) (name : Bytes) : List (Option Bytes) :=
  match slots.findIdx? Option.isNone with
  | none => slots
  | some i => slots.set i (some name)

def acceptLoop (s : Session) (name : Bytes) : List (Option Bytes) → Session × Bool
  | [] => (s,false)
  | none :: rest => acceptLoop s name rest
  | some header :: rest =>
    if pigeonMaxStreamHeader < header.length then acceptLoop s name rest
    else
    match wireStreamHeaderDecode header pigeonMaxNameLen with
    | none => acceptLoop s name rest
    | some sname =>
      if cstr sname = cstr name then bindAead hmac s sname
      else acceptLoop { s with incoming := park s.incoming sname } name rest

/-- `pigeon_session_accept_incoming_stream`. -/
def acceptIncoming (s : Session) (name : Bytes) (arrivals : List (Option Bytes)) : Session × Bool :=
  match findIncoming s.incoming name with
  | some i => bindAead hmac { s with incoming := s.incoming.set i none } (cstr name)
  | none => acceptLoop hmac s name arrivals

/-- `pigeon_stream_send`. -/
def streamSend (s : Session) (i : Nat) (msg : Bytes) : Session × Bool :=
  match s.streams[i]? with
  | none => (s,false)
  | some st =>
    match st.aead with
    | none => (s,true)
    | some ch =>
      match (channelSeal aead ch msg (pigeonMaxMsg + 64)).2 with
      | none => (s,false)
      | some _ =>
        ({ s with
            streams := s.streams.set i { st with aead := some (channelSeal aead ch msg (pigeonMaxMsg + 64)).1 }
            log := s.log ++ [(ch.sendKey,nonceOf ch.sendSeq)] },true)

/-- The calls of the application. -/
def step (s : Session) : Call → Session × Bool
  | .openStream name opens takes => openStream hmac s name opens takes
  | .acceptIncoming name arrivals => acceptIncoming hmac s name arrivals
  | .primary => if s.primary then bindAead hmac s [] else (s,false)
  | .send i msg => streamSend aead s i msg

/-- An activated session (`pigeon_session_init` with an established channel). -/
def newSession (m : SessionMaterial) (primary : Bool) : Session :=
  ⟨some m,primary,replicate pigeonSessionMaxIncoming none,[],[]⟩

section
variable {hmac} {m : SessionMaterial} {s : Session}

variable (hmac m) in
def bound (name : Bytes) : Stream :=
  ⟨name,some (channelInit (forkKey hmac m.sendKey (streamInfo name)) (forkKey hmac m.recvKey (streamInfo name)) .strict)⟩

variable (hmac m) in
def Binds (s s' : Session) : Prop :=
  ∃ slots, s' = { s with incoming := slots } ∨
    ∃ name, s' = { s with incoming := slots, streams := s.streams ++ [bound hmac m name] }

theorem binds_refl (s : Session) : Binds hmac m s s := ⟨s.incoming,.inl rfl⟩

theorem bindAead_binds (keys : s.keys = some m) (slots : List (Option Bytes)) (name : Bytes) :
    Binds hmac m s (bindAead hmac { s with incoming := slots } name).1 := by
  refine ⟨slots,?_⟩
  by_cases long : pigeonMaxNameLen ≤ (cstr name).length
  · left
    simp [bindAead,keys,streamAead,long]
  · right
    exact ⟨cstr name,by simp [bindAead,keys,streamAead_eq hmac m (Nat.not_le.mp long),bound]⟩

theorem acceptLoop_binds (keys : s.keys = some m) (slots : List (Option Bytes)) (name : Bytes)
    (arrivals : List (Option Bytes)) : Binds hmac m s (acceptLoop hmac { s with incoming := slots } name arrivals).1 := by
  induction arrivals generalizing slots with
  | nil => exact ⟨slots,.inl rfl⟩
  | cons arrival rest ih =>
    cases arrival with
    | none => exact ih slots
    | some header =>
      rw [acceptLoop]
      split
      · exact ih slots
      · split
        · exact ih slots
        · split
          · exact bindAead_binds keys slots _
          · exact ih _

theorem step_binds (keys : s.keys = some m) {call} (other : ∀ i msg, call ≠ .send i msg) :
    Binds hmac m s (step aead hmac s call).1 := by
  cases call with
  | openStream name opens takes =>
    simp only [step,openStream]
    split
    · exact binds_refl s
    · split
      · exact binds_refl s
      · split
        · exact binds_refl s
        · split
          · exact bindAead_binds keys s.incoming _
          · exact binds_refl s
  | acceptIncoming name arrivals =>
    simp only [step,acceptIncoming]
    split
    · exact bindAead_binds keys _ _
    · exact acceptLoop_binds keys s.incoming name arrivals
  | primary =>
    simp only [step]
    split
    · exact bindAead_binds keys s.incoming []
    · exact binds_refl s
  | send i msg => exact absurd rfl (other i msg)

theorem streamSend_eq {i : Nat} {st : Stream} {ch : Channel} (here : s.streams[i]? = some st)
    (channel : st.aead = some ch) {msg : Bytes} (fits : msg.length ≤ pigeonMaxMsg + 40) :
    (streamSend aead s i msg).1 = { s with
        streams := s.streams.set i { st with aead := some { ch with sendSeq := ch.sendSeq + 1 } }
        log := s.log ++ [(ch.sendKey,nonceOf ch.sendSeq)] } := by
  have room : ¬ pigeonMaxMsg + 64 < 8 + msg.length + 16 := by omega
  simp [streamSend,here,channel,channelSeal,room]

/-- The pair that a send logs is the key and the nonce of its one encryption. -/
theorem streamSend_logs {i msg key nonce} (logged : (streamSend aead s i msg).1.log = s.log ++ [(key,nonce)]) :
    ∃ st ch, s.streams[i]? = some st ∧ st.aead = some ch ∧ (channelSeal aead ch msg (pigeonMaxMsg + 64)).2 =
      some (le64 ch.sendSeq ++ aead.encrypt key nonce (le64 ch.sendSeq) msg) := by
  revert logged
  unfold streamSend
  split
  next => simp
  next st here =>
    split
    next => simp
    next ch channel =>
      split
      next => simp
      next sealed =>
        intro logged
        obtain ⟨rfl,rfl⟩ : ch.sendKey = key ∧ nonceOf ch.sendSeq = nonce := by simpa using logged
        refine ⟨st,ch,here,channel,?_⟩
        unfold channelSeal at sealed ⊢
        split at sealed
        · cases sealed
        · next room => rw [if_neg room,packet]

theorem streamSend_oversize {i msg} (large : pigeonMaxMsg + 40 < msg.length) : (streamSend aead s i msg).1 = s := by
  have room : pigeonMaxMsg + 64 < 8 + msg.length + 16 := by omega
  unfold streamSend
  split
  · rfl
  · split
    · rfl
    · simp [channelSeal,room]

def Stream.sent (st : Stream) : UInt64 :=
  match st.aead with
  | none => 0
  | some ch => ch.sendSeq

def SoleSender (s : Session) : Call → Prop
  | .send i msg => msg.length ≤ pigeonMaxMsg + 40 → ∀ st, s.streams[i]? = some st →
      ∀ (j : Nat) other, s.streams[j]? = some other → other.name = st.name → j ≠ i → other.sent = 0
  | _ => True

variable (hmac m) in
structure OneSender (s : Session) : Prop where
  keys : s.keys = some m
  keyed : ∀ st ∈ s.streams, ∃ ch, st.aead = some ch ∧ ch.sendKey = forkKey hmac m.sendKey (streamInfo st.name)
  sole : ∀ (i j : Nat) st other, s.streams[i]? = some st → s.streams[j]? = some other →
    other.name = st.name → st.sent ≠ 0 → other.sent ≠ 0 → i = j
  counted : ∀ st ∈ s.streams, st.sent ≠ 0 →
    st.sent = UInt64.ofNat (uses s.log (forkKey hmac m.sendKey (streamInfo st.name)))
  logged : ∀ e ∈ s.log, ∃ st ∈ s.streams, st.sent ≠ 0 ∧ e.1 = forkKey hmac m.sendKey (streamInfo st.name)
  inTurn : InTurn nonceAt s.log

def labels (s : Session) : List Bytes := s.streams.map (fun st => streamInfo st.name)

theorem newSession_oneSender (m : SessionMaterial) (primary : Bool) : OneSender hmac m (newSession m primary) := by
  refine ⟨rfl,?_,?_,?_,?_,inTurn_nil _⟩ <;> simp [newSession]

theorem oneSender_binds {s'} (inv : OneSender hmac m s) (binds : Binds hmac m s s') : OneSender hmac m s' := by
  obtain ⟨slots,rfl | ⟨name,rfl⟩⟩ := binds
  · exact { inv with }
  · have silent : (bound hmac m name).sent = 0 := rfl
    have old : ∀ (j : Nat) st, (s.streams ++ [bound hmac m name])[j]? = some st → st.sent ≠ 0 →
        s.streams[j]? = some st := by
      intro j st here sent
      rw [getElem?_append] at here
      split at here
      · exact here
      · have last : st = bound hmac m name := by
          have := mem_of_getElem? here
          simpa using this
        exact absurd (last ▸ silent) sent
    refine ⟨inv.keys,?_,?_,?_,?_,inv.inTurn⟩
    · exact forall_mem_snoc.mpr ⟨inv.keyed,⟨_,rfl,rfl⟩⟩
    · intro i j st other here there same sent sent'
      exact inv.sole i j st other (old i st here sent) (old j other there sent') same sent sent'
    · intro st mem sent
      rcases mem_snoc.mp mem with before | new
      · exact inv.counted st before sent
      · rw [new] at sent
        exact absurd silent sent
    · intro e mem
      obtain ⟨st,among,sent,key⟩ := inv.logged e mem
      exact ⟨st,mem_append_left _ among,sent,key⟩

theorem name_of_key (free : CollisionFree hmac [m.sendKey] (labels s)) {st other : Stream} (mem : st ∈ s.streams)
    (mem' : other ∈ s.streams)
    (same : forkKey hmac m.sendKey (streamInfo st.name) = forkKey hmac m.sendKey (streamInfo other.name)) :
    st.name = other.name := by
  have label : streamInfo st.name ∈ labels s := mem_map.mpr ⟨st,mem,rfl⟩
  have label' : streamInfo other.name ∈ labels s := mem_map.mpr ⟨other,mem',rfl⟩
  have both := free _ (mem_singleton.mpr rfl) _ (mem_singleton.mpr rfl) _ label _ label' same
  exact streamInfo_injective both.2

theorem sent_of_soleSender (inv : OneSender hmac m s) (free : CollisionFree hmac [m.sendKey] (labels s)) {i : Nat}
    {st : Stream} (here : s.streams[i]? = some st)
    (alone : ∀ (j : Nat) other, s.streams[j]? = some other → other.name = st.name → j ≠ i → other.sent = 0) :
    st.sent = UInt64.ofNat (uses s.log (forkKey hmac m.sendKey (streamInfo st.name))) := by
  have mem := mem_of_getElem? here
  by_cases sent : st.sent = 0
  · have unused : uses s.log (forkKey hmac m.sendKey (streamInfo st.name)) = 0 := by
      by_contra used
      obtain ⟨e,among,key⟩ := exists_of_uses used
      obtain ⟨other,mem',sent',key'⟩ := inv.logged e among
      have same := name_of_key free mem' mem (key'.symm.trans key)
      obtain ⟨j,there⟩ := mem_iff_getElem?.mp mem'
      by_cases index : j = i
      · subst index
        cases (there.symm.trans here : some other = some st)
        exact sent' sent
      · exact sent' (alone j other there same index)
    rw [sent,unused]; rfl
  · exact inv.counted st mem sent

theorem sent_eq {st : Stream} {ch : Channel} (channel : st.aead = some ch) : st.sent = ch.sendSeq := by
  rw [Stream.sent,channel]

section
variable {i : Nat} {st after : Stream}

theorem sole_send (inv : OneSender hmac m s)
    (alone : ∀ (j : Nat) other, s.streams[j]? = some other → other.name = st.name → j ≠ i → other.sent = 0)
    (name : after.name = st.name) (a b : Nat) (x y : Stream) (foundX : (s.streams.set i after)[a]? = some x)
    (foundY : (s.streams.set i after)[b]? = some y) (same : y.name = x.name) (sentX : x.sent ≠ 0)
    (sentY : y.sent ≠ 0) : a = b := by
  rcases getElem?_set_cases foundX with ⟨rfl,rfl⟩ | ⟨apartX,oldX⟩
  · rcases getElem?_set_cases foundY with ⟨rfl,-⟩ | ⟨apartY,oldY⟩
    · rfl
    · exact absurd (alone b y oldY (same.trans name) apartY) sentY
  · rcases getElem?_set_cases foundY with ⟨rfl,rfl⟩ | ⟨-,oldY⟩
    · exact absurd (alone a x oldX (same.symm.trans name) apartX) sentX
    · exact inv.sole a b x y oldX oldY same sentX sentY

theorem logged_send (inv : OneSender hmac m s) (here : s.streams[i]? = some st) (name : after.name = st.name)
    (sends : after.sent ≠ 0) {key : Key} (keyed : key = forkKey hmac m.sendKey (streamInfo st.name)) (nonce : Bytes)
    (e : Key × Bytes) (among : e ∈ s.log ++ [(key,nonce)]) :
    ∃ x ∈ s.streams.set i after, x.sent ≠ 0 ∧ e.1 = forkKey hmac m.sendKey (streamInfo x.name) := by
  have new : after ∈ s.streams.set i after := mem_of_getElem? (getElem?_set_found here)
  rcases mem_snoc.mp among with before | last
  · obtain ⟨x,old,sentX,keyX⟩ := inv.logged e before
    obtain ⟨j,found⟩ := mem_iff_getElem?.mp old
    by_cases same : j = i
    · subst same
      cases (found.symm.trans here : some x = some st)
      exact ⟨after,new,sends,by rw [name]; exact keyX⟩
    · exact ⟨x,mem_of_getElem? (by rw [getElem?_set_ne (Ne.symm same)]; exact found),sentX,keyX⟩
  · rw [last]
    exact ⟨after,new,sends,by rw [name]; exact keyed⟩

theorem oneSender_send (inv : OneSender hmac m s) (free : CollisionFree hmac [m.sendKey] (labels s))
    (here : s.streams[i]? = some st)
    (alone : ∀ (j : Nat) other, s.streams[j]? = some other → other.name = st.name → j ≠ i → other.sent = 0)
    (few : s.log.length + 1 < 2 ^ 64) {msg : Bytes} (fits : msg.length ≤ pigeonMaxMsg + 40) :
    OneSender hmac m (streamSend aead s i msg).1 := by
  have mem := mem_of_getElem? here
  obtain ⟨ch,channel,key⟩ := inv.keyed st mem
  rw [streamSend_eq aead here channel fits]
  have count : ch.sendSeq = UInt64.ofNat (uses s.log ch.sendKey) := by
    rw [← sent_eq channel,key]
    exact sent_of_soleSender inv free here alone
  have now : ({ st with aead := some { ch with sendSeq := ch.sendSeq + 1 } } : Stream).sent =
      UInt64.ofNat (uses s.log ch.sendKey + 1) := by
    rw [sent_eq rfl,← ofNat_succ,← count]
  have sends : ({ st with aead := some { ch with sendSeq := ch.sendSeq + 1 } } : Stream).sent ≠ 0 := by
    rw [now]
    intro zero
    have within := uses_le_length s.log ch.sendKey
    have none : uses s.log ch.sendKey + 1 = 0 := ofNat_inj_below (by omega) (by decide) zero
    omega
  have nonce : nonceOf ch.sendSeq = nonceAt (uses s.log ch.sendKey) := by rw [nonceAt,← count]
  rw [nonce]
  refine ⟨inv.keys,?_,sole_send inv alone rfl,?_,?_,inTurn_snoc inv.inTurn ch.sendKey⟩
  · intro x among
    rcases mem_or_eq_of_mem_set among with old | rfl
    · exact inv.keyed x old
    · exact ⟨_,rfl,key⟩
  · intro x among sentX
    obtain ⟨j,found⟩ := mem_iff_getElem?.mp among
    rcases getElem?_set_cases found with ⟨rfl,rfl⟩ | ⟨apart,old⟩
    · simp only [← key,uses_snoc_self]
      exact now
    · -- Another object that has sent has another name, so another key.
      have otherKey : ch.sendKey ≠ forkKey hmac m.sendKey (streamInfo x.name) := by
        intro same
        rw [key] at same
        have name := name_of_key free mem (mem_of_getElem? old) same
        exact sentX (alone j x old name.symm apart)
      simp only [uses_snoc_other _ otherKey]
      exact inv.counted x (mem_of_getElem? old) sentX
  · exact logged_send inv here (by rfl) sends key _

end

theorem repeats_of_second (inv : OneSender hmac m s) {i j : Nat} {st other} (here : s.streams[i]? = some st)
    (there : s.streams[j]? = some other) (same : other.name = st.name) (apart : j ≠ i) (sent : other.sent ≠ 0)
    {msg} (fits : msg.length ≤ pigeonMaxMsg + 40) : ¬ (streamSend aead s i msg).1.log.Nodup := by
  obtain ⟨ch,channel,key⟩ := inv.keyed st (mem_of_getElem? here)
  rw [streamSend_eq aead here channel fits]
  have silent : ch.sendSeq = 0 := by
    rw [← sent_eq channel]
    by_contra sentHere
    exact apart (inv.sole i j st other here there same sentHere sent).symm
  have used : 0 < uses s.log ch.sendKey := by
    rw [key,← same]
    by_contra zero
    have count := inv.counted other (mem_of_getElem? there) sent
    rw [Nat.eq_zero_of_not_pos zero] at count
    exact sent count
  have before : (ch.sendKey,nonceAt 0) ∈ s.log := inTurn_mem inv.inTurn used
  rw [silent]
  intro nodup
  exact (nodup_append.mp nodup).2.2 _ before _ (mem_singleton.mpr rfl) rfl

def Call.sends : Call → Nat
  | .send _ _ => 1
  | _ => 0

variable (m) in
/-- The keys stay, and objects and encryptions are only added, of these at most `n`. -/
structure Extends (s s' : Session) (n : Nat) : Prop where
  keys : s'.keys = some m
  labels : labels s ⊆ labels s'
  log : s.log <+: s'.log
  few : s'.log.length ≤ s.log.length + n

theorem binds_extends {s'} (keys : s.keys = some m) (binds : Binds hmac m s s') (n : Nat) : Extends m s s' n := by
  obtain ⟨slots,rfl | ⟨name,rfl⟩⟩ := binds
  · exact ⟨keys,Subset.refl _,prefix_refl _,Nat.le_add_right _ _⟩
  · refine ⟨keys,?_,prefix_refl _,Nat.le_add_right _ _⟩
    simp only [labels,map_append]
    exact subset_append_left _ _

theorem send_extends (keys : s.keys = some m) (i : Nat) (msg : Bytes) : Extends m s (streamSend aead s i msg).1 1 := by
  have same : Extends m s s 1 := ⟨keys,Subset.refl _,prefix_refl _,by omega⟩
  by_cases fits : msg.length ≤ pigeonMaxMsg + 40
  · cases here : s.streams[i]? with
    | none => simpa [streamSend,here] using same
    | some st =>
      cases channel : st.aead with
      | none => simpa [streamSend,here,channel] using same
      | some ch =>
        rw [streamSend_eq aead here channel fits]
        have view : ∀ after, (s.streams.set i { st with aead := after }).map (fun st => streamInfo st.name) = labels s :=
          fun _ => map_set_same (fun st : Stream => streamInfo st.name) here rfl
        refine ⟨keys,?_,prefix_append _ _,by simp⟩
        simp only [labels,view]
        exact Subset.refl _
  · rw [streamSend_oversize aead (by omega)]
    exact same

variable (hmac) in
theorem step_extends (keys : s.keys = some m) (call : Call) : Extends m s (step aead hmac s call).1 call.sends := by
  cases call with
  | send i msg => exact send_extends aead keys i msg
  | openStream | acceptIncoming | primary => exact binds_extends keys (step_binds aead keys (by simp)) _

theorem run_extends (keys : s.keys = some m) (calls : List Call) :
    Extends m s (final (step aead hmac) s calls) (calls.map Call.sends).sum := by
  induction calls generalizing s with
  | nil => exact ⟨keys,Subset.refl _,prefix_refl _,Nat.le_add_right _ _⟩
  | cons call rest ih =>
    have first := step_extends aead hmac keys call
    have later := ih first.keys
    refine ⟨later.keys,Subset.trans first.labels later.labels,first.log.trans later.log,?_⟩
    have total : ((call :: rest).map Call.sends).sum = call.sends + (rest.map Call.sends).sum := by simp
    have := first.few
    have := later.few
    rw [total,final_cons]
    omega

theorem step_oneSender (inv : OneSender hmac m s) (free : CollisionFree hmac [m.sendKey] (labels s)) (call : Call)
    (alone : SoleSender s call) (few : s.log.length + call.sends < 2 ^ 64) :
    OneSender hmac m (step aead hmac s call).1 := by
  cases call with
  | send i msg =>
    simp only [step]
    by_cases fits : msg.length ≤ pigeonMaxMsg + 40
    · cases here : s.streams[i]? with
      | none => simpa [streamSend,here] using inv
      | some st => exact oneSender_send aead inv free here (alone fits st here) few fits
    · rw [streamSend_oversize aead (by omega)]
      exact inv
  | openStream | acceptIncoming | primary => exact oneSender_binds inv (step_binds aead inv.keys (by simp))

theorem step_repeats (inv : OneSender hmac m s) (call : Call) (second : ¬ SoleSender s call) :
    ¬ (step aead hmac s call).1.log.Nodup := by
  cases call with
  | send i msg =>
    simp only [SoleSender,not_forall] at second
    obtain ⟨fits,st,here,j,other,there,same,apart,sent⟩ := second
    exact repeats_of_second aead inv here there same apart sent fits
  | openStream | acceptIncoming | primary => exact absurd trivial second

/-- With one sender for each name, a run repeats no pair just when every send is by the only sender of its name. -/
theorem run_nodup_iff (inv : OneSender hmac m s) (calls : List Call)
    (few : s.log.length + (calls.map Call.sends).sum < 2 ^ 64)
    (free : CollisionFree hmac [m.sendKey] (labels (final (step aead hmac) s calls))) :
    (final (step aead hmac) s calls).log.Nodup ↔ Along (step aead hmac) SoleSender s calls := by
  induction calls generalizing s with
  | nil =>
    simp only [final_nil,along_nil,iff_true]
    refine nodup_of_inTurn nonceAt_injective inv.inTurn (fun key => ?_)
    have := uses_le_length s.log key
    simp at few
    omega
  | cons call rest ih =>
    have total : ((call :: rest).map Call.sends).sum = call.sends + (rest.map Call.sends).sum := by simp
    have freeHere : CollisionFree hmac [m.sendKey] (labels s) :=
      collisionFree_mono free (run_extends aead inv.keys (call :: rest)).labels
    have first := step_extends aead hmac inv.keys call
    rw [final_cons] at free ⊢
    rw [along_cons]
    by_cases alone : SoleSender s call
    · have next : OneSender hmac m (step aead hmac s call).1 := step_oneSender aead inv freeHere call alone (by omega)
      have := first.few
      rw [ih next (by omega) free]
      exact (and_iff_right alone).symm
    · -- The send repeats a pair, and the log only grows.
      have again : ¬ (step aead hmac s call).1.log.Nodup := step_repeats aead inv call alone
      refine iff_of_false ?_ (fun both => alone both.1)
      intro nodup
      exact again (nodup.sublist (run_extends aead first.keys rest).log.sublist)

/-- No (key, nonce) pair is repeated if and only if no object encrypts after another of its name has sent. -/
theorem nonces_fresh_iff (m : SessionMaterial) (primary : Bool) (calls : List Call)
    (few : (calls.map Call.sends).sum < 2 ^ 64)
    (free : CollisionFree hmac [m.sendKey] (labels (final (step aead hmac) (newSession m primary) calls))) :
    (final (step aead hmac) (newSession m primary) calls).log.Nodup ↔
      Along (step aead hmac) SoleSender (newSession m primary) calls :=
  run_nodup_iff aead (newSession_oneSender m primary) calls (by simpa [newSession] using few) free

end

end

theorem nonces_fresh_iff_chatting : (final (step checked mixed) (newSession ⟨keyA,keyB⟩ true)
      [.openStream "chat" true true,.primary,.send 0 [1],.send 1 [2],.send 0 [3]]).log.Nodup ↔
    Along (step checked mixed) SoleSender (newSession ⟨keyA,keyB⟩ true)
      [.openStream "chat" true true,.primary,.send 0 [1],.send 1 [2],.send 0 [3]] :=
  nonces_fresh_iff checked ⟨keyA,keyB⟩ true _ (by decide) (by decide +kernel)

/-- Two objects for the primary stream, or two streams opened under one name: their first messages are sealed under
    one key and one nonce. -/
theorem second_sender_reuses : ¬ (final (step checked mixed) (newSession ⟨keyA,keyB⟩ true)
      [.primary,.primary,.send 0 [1],.send 1 [2]]).log.Nodup ∧
    ¬ (final (step checked mixed) (newSession ⟨keyA,keyB⟩ true)
      [.openStream "chat" true true,.send 0 [1],.openStream "chat" true true,.send 1 [2]]).log.Nodup := by
  decide +kernel

end Pigeon.CSession
