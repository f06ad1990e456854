import Pigeon.GoSession

/-!
Both ends of an activated Go session: two sessions with each other's keys, and
any interleaving of what their goroutines do. Every encryption is recorded with
its key and nonce. Each label of each side has one channel, whose counter is the
number of encryptions under its key so far; so no key is used twice with one
nonce before its counter wraps (`nonces_distinct`).
-/
namespace Pigeon.SessionPair
open Octets Sealing Runs Sequence Crypto KeySchedule GoSession List Function

inductive Side
  | near
  | far
deriving DecidableEq

structure Pair where
  session : Side → Session
  log : List (Key × Bytes)

def materialOf (m : SessionMaterial) : Side → SessionMaterial
  | .near => m
  | .far => m.swap

section
variable (aead : Aead) (hmac : Bytes → Bytes → Key)

def pairStep (p : Pair) (move : Side × Call) : Pair × Effects :=
  ({ session := update p.session move.1 (step aead hmac (p.session move.1) move.2).1
     log := p.log ++ (step aead hmac (p.session move.1) move.2).2.used.toList },
    (step aead hmac (p.session move.1) move.2).2)

def newPair (m : SessionMaterial) (allowed : Side → Option (List Bytes)) (discover preferLAN : Side → Bool) : Pair where
  session side := newSession hmac (some (materialOf m side)) (allowed side) (discover side) (preferLAN side)
  log := []

end

def names (k : Keyring) : List Bytes := k.streamChans.map Prod.fst

def Forked (k : Keyring) (label : Bytes) (ch : Channel) : Prop :=
  (label = aeadDatagramInfo ∧ k.dgChannel = some ch) ∨
    ∃ (a : Nat) (name : Bytes), label = streamInfo name ∧ k.streamChans[a]? = some (name,ch)

def labelsOf (k : Keyring) : List Bytes := aeadDatagramInfo :: (names k).map streamInfo

def labels (p : Pair) : List Bytes := labelsOf (p.session .near).keys ++ labelsOf (p.session .far).keys

variable {k : Keyring} {name label : Bytes} {ch : Channel}

theorem mem_names {a : Nat} (held : k.streamChans[a]? = some (name,ch)) : name ∈ names k :=
  mem_map.mpr ⟨(name,ch),mem_of_getElem? held,rfl⟩

theorem names_set {a} (held : k.streamChans[a]? = some (name,ch)) (ch' : Channel) :
    (k.streamChans.set a (name,ch')).map Prod.fst = names k :=
  map_set_same Prod.fst held rfl

theorem mem_labels (p : Pair) {side} (mem : label ∈ labelsOf (p.session side).keys) : label ∈ labels p := by
  cases side with
  | near => exact mem_append_left _ mem
  | far => exact mem_append_right _ mem

theorem label_of_forked (forked : Forked k label ch) : label ∈ labelsOf k := by
  rcases forked with ⟨rfl,-⟩ | ⟨a,name,rfl,held⟩
  · exact mem_cons_self
  · exact mem_cons_of_mem _ (mem_map.mpr ⟨name,mem_names held,rfl⟩)

theorem fresh_label (fresh : name ∉ names k) : streamInfo name ∉ labelsOf k := by
  intro mem
  rcases mem_cons.mp mem with same | among
  · exact streamInfo_ne_datagram name same
  · obtain ⟨other,inside,same⟩ := mem_map.mp among
    exact fresh (streamInfo_injective same ▸ inside)

theorem name_unique (distinct : (names k).Nodup) {a b : Nat} {ch'}
    (one : k.streamChans[a]? = some (name,ch)) (two : k.streamChans[b]? = some (name,ch')) : a = b := by
  have entry : (names k)[a]? = some name := by simp [names,one]
  have entry' : (names k)[b]? = some name := by simp [names,two]
  exact (getElem?_inj (lt_of_getElem? entry) distinct).mp (entry.trans entry'.symm)

def Quiet (k k' : Keyring) : Prop :=
  names k' = names k ∧ ∀ label ch', Forked k' label ch' →
    ∃ ch, Forked k label ch ∧ ch'.sendKey = ch.sendKey ∧ ch'.sendSeq = ch.sendSeq

def Adds (hmac : Bytes → Bytes → Key) (m : SessionMaterial) (k k' : Keyring) : Prop :=
  ∃ name, name ∉ names k ∧ names k' = names k ++ [name] ∧ ∀ label ch', Forked k' label ch' →
    Forked k label ch' ∨ label = streamInfo name ∧ ch'.sendKey = forkKey hmac m.sendKey label ∧ ch'.sendSeq = 0

def Encrypts (k k' : Keyring) (used : Key × Bytes) : Prop :=
  ∃ label ch, Forked k label ch ∧ used = (ch.sendKey,nonceOf ch.sendSeq) ∧ names k' = names k ∧
    ∀ label' ch', Forked k' label' ch' →
      label' = label ∧ ch' = { ch with sendSeq := ch.sendSeq + 1 } ∨ label' ≠ label ∧ Forked k label' ch'

section
variable {hmac : Bytes → Bytes → Key}

theorem quiet_refl (k : Keyring) : Quiet k k := ⟨rfl,fun _ ch forked => ⟨ch,forked,rfl,rfl⟩⟩

theorem hand_effect {m} (material : k.material = some m) (name : Bytes) :
    Quiet k (hand hmac k name) ∨ Adds hmac m k (hand hmac k name) := by
  rcases streamChannel_cases hmac material name with ⟨a,ch,-,same⟩ | ⟨fresh,-,new⟩ | ⟨-,same⟩
  · left
    simp only [hand,same]
    exact quiet_refl k
  · right
    simp only [hand,new]
    refine ⟨name,fresh,by simp [names],?_⟩
    rintro label ch' (⟨rfl,held⟩ | ⟨a,other,rfl,held⟩)
    · exact .inl (.inl ⟨rfl,held⟩)
    · rw [getElem?_append] at held
      split at held
      · exact .inl (.inr ⟨a,other,rfl,held⟩)
      · obtain ⟨-,rfl,rfl⟩ : a - k.streamChans.length = 0 ∧ name = other ∧ _ = ch' := by
          simpa [getElem?_singleton,Prod.ext_iff] using held
        exact .inr ⟨rfl,rfl,rfl⟩
  · left
    simp only [hand,same]
    exact quiet_refl k

theorem forked_set (distinct : (names k).Nodup) {a : Nat} {new} (held : k.streamChans[a]? = some (name,ch))
    {ch'} (forked : Forked { k with streamChans := k.streamChans.set a (name,new) } label ch') :
    label = streamInfo name ∧ ch' = new ∨ label ≠ streamInfo name ∧ Forked k label ch' := by
  rcases forked with ⟨rfl,dg⟩ | ⟨b,other,rfl,found⟩
  · exact .inr ⟨(streamInfo_ne_datagram name).symm,.inl ⟨rfl,dg⟩⟩
  · rcases Sequence.getElem?_set_cases found with ⟨-,same⟩ | ⟨apart,old⟩
    · cases same
      exact .inl ⟨rfl,rfl⟩
    · refine .inr ⟨?_,.inr ⟨b,other,rfl,old⟩⟩
      intro sameName
      cases streamInfo_injective sameName
      exact apart (name_unique distinct held old).symm

theorem moves_effect {m k' used} (moves : Moves hmac k k' used)
    (material : k.material = some m) (distinct : (names k).Nodup) :
    (used = none ∧ (Quiet k k' ∨ Adds hmac m k k')) ∨ ∃ u, used = some u ∧ Encrypts k k' u := by
  cases moves with
  | same => exact .inl ⟨rfl,.inl (quiet_refl k)⟩
  | handed name => exact .inl ⟨rfl,hand_effect material name⟩
  | @sealed a name ch held =>
    refine .inr ⟨_,rfl,streamInfo name,ch,.inr ⟨a,name,rfl,held⟩,rfl,names_set held _,?_⟩
    intro label' ch' forked
    exact forked_set distinct held forked
  | @unsealed a name ch recvSeq held =>
    refine .inl ⟨rfl,.inl ⟨names_set held _,?_⟩⟩
    intro label ch' forked
    rcases forked_set distinct held forked with ⟨rfl,rfl⟩ | ⟨-,before⟩
    · exact ⟨ch,.inr ⟨a,name,rfl,held⟩,rfl,rfl⟩
    · exact ⟨ch',before,rfl,rfl⟩
  | @sealedPart ch held =>
    refine .inr ⟨_,rfl,aeadDatagramInfo,ch,.inl ⟨rfl,held⟩,rfl,rfl,?_⟩
    rintro label' ch' (⟨rfl,after⟩ | ⟨a,name,rfl,found⟩)
    · exact .inl ⟨rfl,(Option.some.inj after).symm⟩
    · exact .inr ⟨streamInfo_ne_datagram name,.inr ⟨a,name,rfl,found⟩⟩
  | @unsealedPart ch recvSeq held =>
    refine .inl ⟨rfl,.inl ⟨rfl,?_⟩⟩
    rintro label ch' (⟨rfl,after⟩ | ⟨a,name,rfl,found⟩)
    · cases after
      exact ⟨ch,.inl ⟨rfl,held⟩,rfl,rfl⟩
    · exact ⟨ch',.inr ⟨a,name,rfl,found⟩,rfl,rfl⟩

end

def Keyed (hmac : Bytes → Bytes → Key) (m : SessionMaterial) (k : Keyring) : Prop :=
  ∀ label ch, Forked k label ch → ch.sendKey = forkKey hmac m.sendKey label

def Counted (log : List (Key × Bytes)) (k : Keyring) : Prop :=
  ∀ label ch, Forked k label ch → ch.sendSeq = UInt64.ofNat (uses log ch.sendKey)

structure InCount (hmac : Bytes → Bytes → Key) (m : SessionMaterial) (p : Pair) : Prop where
  material : ∀ side, (p.session side).keys.material = some (materialOf m side)
  distinct : ∀ side, (names (p.session side).keys).Nodup
  keyed : ∀ side, Keyed hmac (materialOf m side) (p.session side).keys
  counted : ∀ side, Counted p.log (p.session side).keys
  logged : ∀ e ∈ p.log, ∃ side, ∃ label ∈ labelsOf (p.session side).keys,
    e.1 = forkKey hmac (materialOf m side).sendKey label
  inTurn : InTurn nonceAt p.log

section
variable {hmac : Bytes → Bytes → Key} {m : SessionMaterial} {p p' : Pair} {side : Side}

theorem owner_unique (free : CollisionFree hmac [m.sendKey,m.recvKey] (labels p)) (differ : m.sendKey ≠ m.recvKey)
    {one two : Side} {label' : Bytes} (inside : label ∈ labelsOf (p.session one).keys)
    (inside' : label' ∈ labelsOf (p.session two).keys)
    (same : forkKey hmac (materialOf m one).sendKey label = forkKey hmac (materialOf m two).sendKey label') :
    one = two ∧ label = label' := by
  have base : ∀ side, (materialOf m side).sendKey ∈ [m.sendKey,m.recvKey] := by
    intro side
    cases side <;> simp [materialOf,SessionMaterial.swap]
  obtain ⟨bases,labels⟩ := free _ (base one) _ (base two) _ (mem_labels p inside) _ (mem_labels p inside') same
  refine ⟨?_,labels⟩
  cases one <;> cases two <;> first | rfl | exact absurd bases differ | exact absurd bases differ.symm

theorem newPair_inCount (m : SessionMaterial) (allowed : Side → Option (List Bytes)) (discover preferLAN : Side → Bool) :
    InCount hmac m (newPair hmac m allowed discover preferLAN) := by
  have only : ∀ side label ch, Forked ((newPair hmac m allowed discover preferLAN).session side).keys label ch →
      label = aeadDatagramInfo ∧ ch = channelInit (forkKey hmac (materialOf m side).sendKey aeadDatagramInfo)
        (forkKey hmac (materialOf m side).recvKey aeadDatagramInfo) .datagrams := by
    rintro side label ch (⟨rfl,held⟩ | ⟨a,name,rfl,held⟩)
    · refine ⟨rfl,?_⟩
      have derived := datagramChannel_eq hmac (materialOf m side)
      exact (Option.some.inj (derived.symm.trans held)).symm
    · simp [newPair,newSession] at held
  refine ⟨fun _ => rfl,?_,?_,?_,?_,inTurn_nil _⟩
  · intro side
    simp [newPair,newSession,names]
  · intro side label ch forked
    obtain ⟨rfl,rfl⟩ := only side label ch forked
    rfl
  · intro side label ch forked
    obtain ⟨rfl,rfl⟩ := only side label ch forked
    rfl
  · intro e mem
    simp [newPair] at mem

theorem labels_grow {k' : Keyring} {used : Option (Key × Bytes)} (moves : Moves hmac k k' used) :
    labelsOf k ⊆ labelsOf k' := by
  have grown : names k ⊆ names k' := by
    cases moves with
    | same | sealedPart | unsealedPart => exact Subset.refl _
    | handed name =>
      obtain ⟨-,-,more,longer⟩ := streamChannel_frame hmac k name
      simp only [names,hand,longer,map_append]
      exact subset_append_left _ _
    | sealed held => simp only [names,names_set held]; exact Subset.refl _
    | unsealed recvSeq held => simp only [names,names_set held]; exact Subset.refl _
  exact cons_subset_cons _ (map_subset _ grown)

theorem each_side {P : Side → Keyring → Prop} (others : ∀ other, other ≠ side → p'.session other = p.session other)
    (before : ∀ s, P s (p.session s).keys) (here : P side (p'.session side).keys) : ∀ s, P s (p'.session s).keys := by
  intro s
  by_cases same : s = side
  · subst same; exact here
  · rw [others s same]; exact before s

section
variable (inv : InCount hmac m p) (others : ∀ other, other ≠ side → p'.session other = p.session other)
  (material : (p'.session side).keys.material = some (materialOf m side))
include inv others material

theorem inCount_unlogged (log : p'.log = p.log)
    (grow : ∀ s, labelsOf (p.session s).keys ⊆ labelsOf (p'.session s).keys)
    (distinct : (names (p'.session side).keys).Nodup) (keyed : Keyed hmac (materialOf m side) (p'.session side).keys)
    (counted : Counted p.log (p'.session side).keys) : InCount hmac m p' := by
  refine ⟨?_,?_,?_,?_,?_,by rw [log]; exact inv.inTurn⟩
  · exact each_side (P := fun s k => k.material = some (materialOf m s)) others inv.material material
  · exact each_side (P := fun _ k => (names k).Nodup) others inv.distinct distinct
  · exact each_side (P := fun s k => Keyed hmac (materialOf m s) k) others inv.keyed keyed
  · rw [log]
    exact each_side (P := fun _ k => Counted p.log k) others inv.counted counted
  · intro e mem
    rw [log] at mem
    obtain ⟨s,label,inside,key⟩ := inv.logged e mem
    exact ⟨s,label,grow s inside,key⟩

theorem inCount_quiet (log : p'.log = p.log)
    (quiet : Quiet (p.session side).keys (p'.session side).keys) : InCount hmac m p' := by
  obtain ⟨same,back⟩ := quiet
  refine inCount_unlogged inv others material log ?_ (by rw [same]; exact inv.distinct side) ?_ ?_
  · exact each_side (P := fun s k => labelsOf (p.session s).keys ⊆ labelsOf k) others (fun s => Subset.refl _)
      (by rw [labelsOf,labelsOf,same]; exact Subset.refl _)
  · intro label ch' forked
    obtain ⟨ch,before,key,-⟩ := back label ch' forked
    rw [key]; exact inv.keyed side label ch before
  · intro label ch' forked
    obtain ⟨ch,before,key,seq⟩ := back label ch' forked
    rw [key,seq]; exact inv.counted side label ch before

variable (grow : ∀ s, labelsOf (p.session s).keys ⊆ labelsOf (p'.session s).keys)
  (free : CollisionFree hmac [m.sendKey,m.recvKey] (labels p')) (differ : m.sendKey ≠ m.recvKey)
include grow free differ

theorem inCount_adds (log : p'.log = p.log)
    (adds : Adds hmac (materialOf m side) (p.session side).keys (p'.session side).keys) : InCount hmac m p' := by
  obtain ⟨name,fresh,longer,back⟩ := adds
  have added : streamInfo name ∈ labelsOf (p'.session side).keys := by simp [labelsOf,longer]
  have unused : uses p.log (forkKey hmac (materialOf m side).sendKey (streamInfo name)) = 0 := by
    apply uses_eq_zero
    intro e mem same
    obtain ⟨s,label,inside,key⟩ := inv.logged e mem
    obtain ⟨rfl,rfl⟩ := owner_unique free differ (grow s inside) added (key.symm.trans same)
    exact fresh_label fresh inside
  refine inCount_unlogged inv others material log grow ?_ ?_ ?_
  · rw [longer]
    exact Nodup.append (inv.distinct side) (nodup_singleton name) (disjoint_singleton.mpr fresh)
  · intro label ch' forked
    rcases back label ch' forked with before | ⟨-,key,-⟩
    · exact inv.keyed side label ch' before
    · exact key
  · intro label ch' forked
    rcases back label ch' forked with before | ⟨rfl,key,seq⟩
    · exact inv.counted side label ch' before
    · rw [key,unused,seq]; rfl

theorem inCount_encrypts {u : Key × Bytes} (log : p'.log = p.log ++ [u])
    (encrypts : Encrypts (p.session side).keys (p'.session side).keys u) : InCount hmac m p' := by
  obtain ⟨label,ch,forked,rfl,same,back⟩ := encrypts
  have key := inv.keyed side label ch forked
  have count := inv.counted side label ch forked
  have longer : p'.log = p.log ++ [(ch.sendKey,nonceAt (uses p.log ch.sendKey))] := by
    rw [log,nonceAt,← count]
  have otherKey : ∀ s label' ch', Forked (p.session s).keys label' ch' → ¬ (s = side ∧ label' = label) →
      uses p'.log ch'.sendKey = uses p.log ch'.sendKey := by
    intro s label' ch' forked' apart
    rw [longer]
    refine uses_snoc_other _ ?_ _
    intro sameKey
    rw [key,inv.keyed s label' ch' forked'] at sameKey
    obtain ⟨rfl,rfl⟩ := owner_unique free differ (grow _ (label_of_forked forked))
      (grow _ (label_of_forked forked')) sameKey
    exact apart ⟨rfl,rfl⟩
  refine ⟨?_,?_,?_,?_,?_,by rw [longer]; exact inTurn_snoc inv.inTurn ch.sendKey⟩
  · exact each_side (P := fun s k => k.material = some (materialOf m s)) others inv.material material
  · exact each_side (P := fun _ k => (names k).Nodup) others inv.distinct (by rw [same]; exact inv.distinct side)
  · refine each_side (P := fun s k => Keyed hmac (materialOf m s) k) others inv.keyed ?_
    intro label' ch' forked'
    rcases back label' ch' forked' with ⟨rfl,rfl⟩ | ⟨-,before⟩
    · exact key
    · exact inv.keyed side label' ch' before
  · intro s label' ch' forked'
    by_cases here : s = side
    · subst here
      rcases back label' ch' forked' with ⟨rfl,rfl⟩ | ⟨apart,before⟩
      · simp [longer,uses_snoc_self,← ofNat_succ,← count]
      · rw [otherKey s label' ch' before (fun both => apart both.2)]
        exact inv.counted s label' ch' before
    · rw [others s here] at forked'
      rw [otherKey s label' ch' forked' (fun both => here both.1)]
      exact inv.counted s label' ch' forked'
  · intro e mem
    rw [longer] at mem
    rcases mem_snoc.mp mem with old | new
    · obtain ⟨s,label',inside,key'⟩ := inv.logged e old
      exact ⟨s,label',grow s inside,key'⟩
    · rw [new]
      exact ⟨side,label,grow side (label_of_forked forked),key⟩

end

section
variable (aead : Aead) (hmac)

theorem pairStep_moves (p : Pair) (move : Side × Call) :
    Moves hmac (p.session move.1).keys ((pairStep aead hmac p move).1.session move.1).keys
      (step aead hmac (p.session move.1) move.2).2.used := by
  simp only [pairStep,update_self]
  exact step_moves aead (p.session move.1) move.2

theorem pairStep_others (p : Pair) (move : Side × Call) (other : Side) (apart : other ≠ move.1) :
    (pairStep aead hmac p move).1.session other = p.session other :=
  update_of_ne apart _ _

theorem pairStep_grow (p : Pair) (move : Side × Call) (s : Side) :
    labelsOf (p.session s).keys ⊆ labelsOf ((pairStep aead hmac p move).1.session s).keys :=
  each_side (P := fun s k => labelsOf (p.session s).keys ⊆ labelsOf k) (pairStep_others hmac aead p move)
    (fun _ => Subset.refl _) (labels_grow (pairStep_moves hmac aead p move)) s

theorem pairStep_labels (p : Pair) (move : Side × Call) : labels p ⊆ labels (pairStep aead hmac p move).1 := by
  intro label mem
  rcases mem_append.mp mem with near | far
  · exact mem_append_left _ (pairStep_grow hmac aead p move .near near)
  · exact mem_append_right _ (pairStep_grow hmac aead p move .far far)

theorem pairStep_inCount (inv : InCount hmac m p) (differ : m.sendKey ≠ m.recvKey) (move : Side × Call)
    (free : CollisionFree hmac [m.sendKey,m.recvKey] (labels (pairStep aead hmac p move).1)) :
    InCount hmac m (pairStep aead hmac p move).1 := by
  have moves := pairStep_moves hmac aead p move
  have material := (material_moves moves).trans (inv.material move.1)
  have others := pairStep_others hmac aead p move
  have grow := pairStep_grow hmac aead p move
  rcases moves_effect moves (inv.material move.1) (inv.distinct move.1) with ⟨none,quiet | adds⟩ | ⟨u,some,encrypts⟩
  · exact inCount_quiet inv others material (by simp [pairStep,none]) quiet
  · exact inCount_adds inv others material grow free differ (by simp [pairStep,none]) adds
  · exact inCount_encrypts inv others material grow free differ (by simp [pairStep,some]) encrypts

/-- The (key, nonce) pairs of both ends are distinct, provided the base keys differ, no derivations collide, and no
    key encrypts more than `2 ^ 64` messages. -/
theorem nonces_distinct (m : SessionMaterial) (differ : m.sendKey ≠ m.recvKey) (allowed : Side → Option (List Bytes))
    (discover preferLAN : Side → Bool) (moves : List (Side × Call))
    (free : CollisionFree hmac [m.sendKey,m.recvKey]
      (labels (final (pairStep aead hmac) (newPair hmac m allowed discover preferLAN) moves)))
    (few : ∀ key, uses (final (pairStep aead hmac) (newPair hmac m allowed discover preferLAN) moves).log key ≤ 2 ^ 64) :
    (final (pairStep aead hmac) (newPair hmac m allowed discover preferLAN) moves).log.Nodup := by
  have along := along_of_final (P := fun p => CollisionFree hmac [m.sendKey,m.recvKey] (labels p))
    (fun p move free => collisionFree_mono free (pairStep_labels hmac aead p move)) free
  have inv := final_invariant (I := InCount hmac m)
    (fun p move inv free => pairStep_inCount hmac aead inv differ move free)
    (newPair_inCount m allowed discover preferLAN) along
  exact nodup_of_inTurn nonceAt_injective inv.inTurn few

end

end

theorem nonces_distinct_chatting :
    (final (pairStep checked mixed) (newPair mixed ⟨keyA,keyB⟩ (fun _ => none) (fun _ => false) (fun _ => false))
      [(.near,.request (.openStream "chat" true)),(.near,.send 0 [1] true),(.far,.request .primary),
        (.far,.sendPart [9]),(.near,.request (.openStream "chat" true)),(.far,.send 0 [2] true),
        (.near,.send 1 [3] true)]).log.Nodup :=
  nonces_distinct mixed checked ⟨keyA,keyB⟩ (by decide) (fun _ => none) (fun _ => false) (fun _ => false) _
    (by decide +kernel) (fun key => le_trans (uses_le_length _ key) (by decide +kernel))

end Pigeon.SessionPair
