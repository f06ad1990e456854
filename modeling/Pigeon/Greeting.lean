import Pigeon.Unions

/-!
The relay greeting (`protocol/wireformats.yaml`, `wire_gen.go`), as a union format,
and the greetings that the dial functions of `transport.go` send. `Dial.carried` is
what a call puts into its greeting. The relay reads it back unless the token of a
`register` or a `listen` has a colon: then the token ends there, and the instance ID
begins with the rest of it (`greeting_round_trip_iff`).
-/
namespace Pigeon.Greeting
open Octets KeySchedule Unions

def connectUnion : WireUnion := ⟨"connect","connect:",["instance_id"],[]⟩
def registerUnion : WireUnion := ⟨"register","register",[],["token","instance_id"]⟩
def listenUnion : WireUnion := ⟨"listen","listen",[],["token","instance_id"]⟩

def relayGreeting : List WireUnion := [connectUnion,registerUnion,listenUnion]

inductive RelayGreetingVariant
  | connect
  | register
  | listen
deriving DecidableEq

def RelayGreetingVariant.ofTag : Nat → RelayGreetingVariant
  | 0 => .connect
  | 1 => .register
  | _ => .listen

structure RelayGreetingDecoded where
  variant : RelayGreetingVariant
  (instanceId token : Bytes)
deriving DecidableEq

def encodeRelayGreetingConnect (instanceId : Bytes) : Bytes := connectUnion.encode [instanceId]

def encodeRelayGreetingRegister (token instanceId : Bytes) : Bytes := registerUnion.encode [token,instanceId]

def encodeRelayGreetingListen (token instanceId : Bytes) : Bytes := listenUnion.encode [token,instanceId]

def fieldOf (name : String) (values : List (String × Bytes)) : Bytes := (values.lookup name).getD []

def decodeRelayGreeting (buf : Bytes) : Except String RelayGreetingDecoded :=
  (decodeUnion "relay_greeting" relayGreeting buf).map (fun (tag,values) =>
    ⟨.ofTag tag,fieldOf "instance_id" values,fieldOf "token" values⟩)

theorem ordered_relayGreeting : ordered relayGreeting = [(connectUnion,0),(registerUnion,1),(listenUnion,2)] := by
  decide

theorem decodeRelayGreeting_eq (buf : Bytes) : decodeRelayGreeting buf =
      if (ascii "connect:").isPrefixOf buf then .ok ⟨.connect,buf.drop 8,[]⟩
      else if (ascii "register").isPrefixOf buf then
        (registerUnion.decode "relay_greeting" (buf.drop 8)).map (fun values =>
          ⟨.register,fieldOf "instance_id" values,fieldOf "token" values⟩)
      else if (ascii "listen").isPrefixOf buf then
        (listenUnion.decode "relay_greeting" (buf.drop 6)).map (fun values =>
          ⟨.listen,fieldOf "instance_id" values,fieldOf "token" values⟩)
      else .error "relay_greeting: unrecognised prefix" := by
  have leads : connectUnion.lead = "connect:" ∧ registerUnion.lead = "register" ∧
      listenUnion.lead = "listen" := ⟨rfl,rfl,rfl⟩
  rw [decodeRelayGreeting,decodeUnion,ordered_relayGreeting]
  simp only [List.find?_cons,List.find?_nil,leads.1,leads.2.1,leads.2.2]
  split_ifs with connect register listen
  · rw [connect]
    rfl
  · rw [Bool.eq_false_iff.mpr connect,register]
    show Except.map _ (Except.map _ (registerUnion.decode "relay_greeting" (buf.drop 8))) = _
    cases registerUnion.decode "relay_greeting" (buf.drop 8) <;> rfl
  · rw [Bool.eq_false_iff.mpr connect,Bool.eq_false_iff.mpr register,listen]
    show Except.map _ (Except.map _ (listenUnion.decode "relay_greeting" (buf.drop 6))) = _
    cases listenUnion.decode "relay_greeting" (buf.drop 6) <;> rfl
  · rw [Bool.eq_false_iff.mpr connect,Bool.eq_false_iff.mpr register,Bool.eq_false_iff.mpr listen]
    rfl

theorem decode_connect (rest : Bytes) : decodeRelayGreeting (ascii "connect:" ++ rest) = .ok ⟨.connect,rest,[]⟩ := by
  rw [decodeRelayGreeting,decodeUnion,ordered_relayGreeting]
  rfl

theorem encode_connect (instanceId : Bytes) : encodeRelayGreetingConnect instanceId = "connect:" ++ instanceId := by
  simp [encodeRelayGreetingConnect,WireUnion.encode,connectUnion]

theorem connect_of_decode {buf instanceId token}
    (decoded : decodeRelayGreeting buf = .ok ⟨.connect,instanceId,token⟩) :
    buf = encodeRelayGreetingConnect instanceId := by
  rw [decodeRelayGreeting_eq] at decoded
  split_ifs at decoded with connect register listen
  · obtain ⟨rest,rfl⟩ := List.isPrefixOf_iff_prefix.mp connect
    have same : rest = instanceId := congrArg RelayGreetingDecoded.instanceId (Except.ok.inj decoded)
    rw [encode_connect,same]
  · cases fields : registerUnion.decode "relay_greeting" (buf.drop 8) with
    | error | ok => simp [fields,Except.map] at decoded
  · cases fields : listenUnion.decode "relay_greeting" (buf.drop 6) with
    | error | ok => simp [fields,Except.map] at decoded

def suffixed (variant : RelayGreetingVariant) (parts : List Bytes) : RelayGreetingDecoded :=
  ⟨variant,parts.getD 1 [],parts.getD 0 []⟩

theorem decoded_suffix (variant : RelayGreetingVariant) (parts : List Bytes) :
    (⟨variant,fieldOf "instance_id" (["token","instance_id"].zip parts),
      fieldOf "token" (["token","instance_id"].zip parts)⟩ : RelayGreetingDecoded) = suffixed variant parts := by
  rcases parts with _ | ⟨first,_ | ⟨second,rest⟩⟩ <;> rfl

theorem decode_register (rest : Bytes) :
    decodeRelayGreeting (ascii "register" ++ colon :: rest) = .ok (suffixed .register (splitN colon 2 rest)) := by
  rw [decodeRelayGreeting,decodeUnion,ordered_relayGreeting]
  exact congrArg Except.ok (decoded_suffix .register (splitN colon 2 rest))

theorem decode_listen (rest : Bytes) :
    decodeRelayGreeting (ascii "listen" ++ colon :: rest) = .ok (suffixed .listen (splitN colon 2 rest)) := by
  rw [decodeRelayGreeting,decodeUnion,ordered_relayGreeting]
  exact congrArg Except.ok (decoded_suffix .listen (splitN colon 2 rest))

theorem encode_suffix (u : WireUnion) (suffix : u.colonSuffix ≠ []) (token instanceId : Bytes) :
    (token = [] ∧ instanceId = [] ∧ u.encode [token,instanceId] = u.lead) ∨
      u.encode [token,instanceId] = u.lead ++ colon :: (token ++ colon :: instanceId) := by
  by_cases none : token = [] ∧ instanceId = []
  · obtain ⟨rfl,rfl⟩ := none
    exact Or.inl ⟨rfl,rfl,by simp [WireUnion.encode,suffix]⟩
  · have some : token ≠ [] ∨ instanceId ≠ [] := by
      rcases Classical.em (token = []) with empty | filled
      · exact Or.inr (fun also => none ⟨empty,also⟩)
      · exact Or.inl filled
    exact Or.inr (by simp [WireUnion.encode,suffix,some,joined])

theorem suffixed_iff (variant : RelayGreetingVariant) (token instanceId : Bytes) :
    suffixed variant (splitN colon 2 (token ++ colon :: instanceId)) = ⟨variant,instanceId,token⟩ ↔ colon ∉ token := by
  constructor
  · intro same
    have first : (splitN colon 2 (token ++ colon :: instanceId)).getD 0 [] = token :=
      congrArg RelayGreetingDecoded.token same
    cases parts : splitN colon 2 (token ++ colon :: instanceId) with
    | nil =>
      rw [parts] at first
      rw [← first]
      simp
    | cons head tail =>
      rw [parts] at first
      exact head_splitN (by rw [parts,← first]; rfl)
  · intro clean
    have split := splitN_joined [token] instanceId (by simpa using clean)
    have shape : (joined ([token] ++ [instanceId])).tail = token ++ colon :: instanceId := by simp [joined]
    rw [shape] at split
    simp only [List.length_singleton] at split
    rw [split]
    rfl

theorem suffix_round_trip_iff {u : WireUnion} {variant : RelayGreetingVariant} (suffix : u.colonSuffix ≠ [])
    (bare : decodeRelayGreeting u.lead = .ok ⟨variant,[],[]⟩)
    (behind : ∀ rest, decodeRelayGreeting (u.lead ++ colon :: rest) = .ok (suffixed variant (splitN colon 2 rest)))
    (token instanceId : Bytes) :
    decodeRelayGreeting (u.encode [token,instanceId]) = .ok ⟨variant,instanceId,token⟩ ↔ colon ∉ token := by
  rcases encode_suffix u suffix token instanceId with ⟨rfl,rfl,written⟩ | written
  · rw [written,bare]
    simp
  · rw [written,behind]
    exact ⟨fun same => (suffixed_iff variant token instanceId).mp (Except.ok.inj same),
      fun clean => congrArg _ ((suffixed_iff variant token instanceId).mpr clean)⟩

structure Config where
  (token instanceID : Bytes)

/-- The calls that send a greeting: `dialRegister`, `dialListen`, `dialInitiator`, and the same over WebTransport. -/
inductive Dial
  | register (c : Config)
  | listen (instanceID : Bytes) (c : Config)
  | initiator (instanceID : Bytes) (c : Config)

def Dial.greeting : Dial → Bytes
  | .register c => encodeRelayGreetingRegister c.token c.instanceID
  | .listen instanceID c => encodeRelayGreetingListen c.token instanceID
  | .initiator instanceID _ => encodeRelayGreetingConnect instanceID

def Dial.carried : Dial → RelayGreetingDecoded
  | .register c => ⟨.register,c.instanceID,c.token⟩
  | .listen instanceID c => ⟨.listen,instanceID,c.token⟩
  | .initiator instanceID _ => ⟨.connect,instanceID,[]⟩

def Dial.ColonFree (d : Dial) : Prop := colon ∉ d.carried.token
deriving Decidable

/-- The relay reads a greeting back as it was meant just when no colon is in its token. -/
theorem greeting_round_trip_iff (d : Dial) : decodeRelayGreeting d.greeting = .ok d.carried ↔ d.ColonFree := by
  cases d with
  | register c =>
    exact suffix_round_trip_iff (u := registerUnion) (by decide) (by decide) decode_register _ _
  | listen instanceID c =>
    exact suffix_round_trip_iff (u := listenUnion) (by decide) (by decide) decode_listen _ _
  | initiator instanceID c =>
    simp only [Dial.greeting,Dial.carried,Dial.ColonFree,encode_connect,decode_connect]
    simp

/-- With the token `a:b` the relay sees the token `a` and another instance ID. -/
theorem token_with_colon_is_cut : (Dial.register ⟨"a:b","id"⟩).greeting = "register:a:b:id" ∧
      decodeRelayGreeting (Dial.register ⟨"a:b","id"⟩).greeting = .ok ⟨.register,"b:id","a"⟩ ∧
      decodeRelayGreeting (Dial.register ⟨"a:b","id"⟩).greeting ≠ .ok (Dial.register ⟨"a:b","id"⟩).carried := by
  refine ⟨by decide,by decide +kernel,by decide +kernel⟩

end Pigeon.Greeting
