import Mathlib.Data.List.TakeDrop
import Pigeon.Framing
import Pigeon.Greeting

/-!
The greeting that the native transport writes to the relay (`c/src/ngtcp2_transport.c`,
`c/src/listener_ngtcp2.c`, `c/src/wire_gen.c`). Instance ID and token pass through fixed arrays
that cut them. The relay reads back what was given just when nothing was cut and no colon is
in a token that is sent (`read_back_iff`).
-/
namespace Pigeon.NativeGreeting
open Octets KeySchedule Unions Greeting Framing List Option

def zeroed (size : Nat) : Bytes := replicate size 0

/-- `snprintf(buf, sizeof(buf), "%s", s)`. -/
def snprintf (buf s : Bytes) : Bytes :=
  let text := (cstr s).take (buf.length - 1)
  text ++ 0 :: buf.drop (text.length + 1)

/-- The string at a pointer, where `NULL` counts as empty. -/
def given : Option Bytes → Bytes
  | none => []
  | some s => cstr s

/-- `(buf[0] != '\0') ? buf : NULL`. -/
def pointer (buf : Bytes) : Option Bytes := if buf.headD 0 ≠ 0 then some buf else none

theorem notMem_take_cstr (s : Bytes) (n : Nat) : 0 ∉ (cstr s).take n := fun mem => notMem_cstr s (mem_of_mem_take mem)

theorem cstr_snprintf (buf s : Bytes) : cstr (snprintf buf s) = (cstr s).take (buf.length - 1) :=
  cstr_append_zero (notMem_take_cstr s _) _

theorem cstr_zeroed (size : Nat) : cstr (zeroed size) = [] := by
  cases size with
  | zero => rfl
  | succ size => simp [zeroed,cstr,replicate_succ]

theorem given_pointer (buf : Bytes) : given (pointer buf) = cstr buf := by
  cases buf with
  | nil => rfl
  | cons first rest =>
    by_cases zero : first = 0
    · simp [pointer,zero,given,cstr]
    · simp [pointer,zero,given]

/-! ### The encoders of the C library

They return the length as an `int`; the arrays they write to here have 256 octets. -/

/-- `pigeon_wire_relay_greeting_encode_connect`. -/
def greetingEncodeConnect (instanceId : Bytes) (outLen : Nat) : Option Bytes :=
  if outLen < 8 then none
  else if 0 < instanceId.length then
    if outLen < 8 + instanceId.length then none else some (ascii "connect:" ++ instanceId)
  else some "connect:"

/-- The loop over the parts of a suffix, after what stands in `out` already. -/
def appendParts (outLen : Nat) (out : Bytes) : List (Option Bytes) → Option Bytes
  | [] => some out
  | part :: rest =>
    if outLen < out.length + 1 then none
    else if 0 < (given part).length then
      if outLen < out.length + 1 + (given part).length then none
      else appendParts outLen (out ++ colon :: given part) rest
    else appendParts outLen (out ++ [colon]) rest

def greetingEncodeSuffix (lead : Bytes) (token instanceId : Option Bytes) (outLen : Nat) : Option Bytes :=
  if outLen < lead.length then none
  else if 0 < (given token).length ∨ 0 < (given instanceId).length then
    appendParts outLen lead [token,instanceId]
  else some lead

/-- `pigeon_wire_relay_greeting_encode_register`. -/
def greetingEncodeRegister : Option Bytes → Option Bytes → Nat → Option Bytes :=
  greetingEncodeSuffix "register"

/-- `pigeon_wire_relay_greeting_encode_listen`. -/
def greetingEncodeListen : Option Bytes → Option Bytes → Nat → Option Bytes :=
  greetingEncodeSuffix "listen"

variable {outLen : Nat}

theorem appendParts_eq (parts : List (Option Bytes)) (out : Bytes)
    (room : out.length + (joined (parts.map given)).length ≤ outLen) :
    appendParts outLen out parts = some (out ++ joined (parts.map given)) := by
  induction parts generalizing out with
  | nil => simp [appendParts,joined]
  | cons part rest ih =>
    have shape : joined ((part :: rest).map given) = colon :: given part ++ joined (rest.map given) := by
      simp [joined]
    rw [shape] at room ⊢
    simp only [length_append,length_cons] at room
    rw [appendParts,if_neg (by omega)]
    split
    · rw [if_neg (by omega),ih _ (by simp only [length_append,length_cons]; omega),append_assoc]
    · rename_i empty
      have none : given part = [] := length_eq_zero_iff.mp (by omega)
      rw [ih _ (by simp only [length_append,length_singleton]; omega),none,append_assoc]

theorem length_joined_pair (token instanceId : Bytes) :
    (joined [token,instanceId]).length = token.length + instanceId.length + 2 := by
  simp [joined]
  omega

variable {token : Option Bytes}

theorem greetingEncodeSuffix_eq {u : WireUnion} (suffix : u.colonSuffix ≠ []) {instanceId : Option Bytes}
    (room : u.lead.length + (given token).length + (given instanceId).length + 2 ≤ outLen) :
    greetingEncodeSuffix u.lead token instanceId outLen = some (u.encode [given token,given instanceId]) := by
  have fits : u.lead.length + (joined ([token,instanceId].map given)).length ≤ outLen := by
    have := length_joined_pair (given token) (given instanceId)
    simp only [map_cons,map_nil]
    omega
  rw [greetingEncodeSuffix,if_neg (by omega),appendParts_eq _ _ fits,WireUnion.encode,if_neg suffix]
  by_cases filled : 0 < (given token).length ∨ 0 < (given instanceId).length
  · have any : [given token,given instanceId].any (fun p => decide (p ≠ [])) = true := by
      simpa [length_pos_iff] using filled
    rw [if_pos filled,if_pos any]
    rfl
  · have empty : given token = [] ∧ given instanceId = [] := by simpa [length_pos_iff] using filled
    rw [if_neg filled,empty.1,empty.2]
    simp

theorem greetingEncodeConnect_eq {instanceId : Bytes} (room : 8 + instanceId.length ≤ outLen) :
    greetingEncodeConnect instanceId outLen = some (encodeRelayGreetingConnect instanceId) := by
  rw [greetingEncodeConnect,if_neg (by omega),encode_connect]
  split
  · rw [if_neg (by omega)]
  · rename_i empty
    have none : instanceId = [] := length_eq_zero_iff.mp (by omega)
    rw [none,append_nil]

inductive Role
  | connect
  | register
  | listen
  | other
deriving DecidableEq

structure Config where
  role : Role
  (instanceId token : Option Bytes)

structure Transport where
  role : Role
  (instanceId token : Bytes)

/-- Whether there is a primary stream, whether the writes on it succeed, and what the relay sends on it. -/
structure Network where
  (connects writes : Bool)
  arrives : Bytes

def retain (cfg : Config) : Transport :=
  { role := cfg.role
    instanceId := (cfg.instanceId.map (snprintf (zeroed 64))).getD (zeroed 64)
    token := (cfg.token.map (snprintf (zeroed 128))).getD (zeroed 128) }

/-- `build_handshake`. -/
def buildHandshake (t : Transport) (outLen : Nat) : Option Bytes :=
  let token := pointer t.token
  let id := pointer t.instanceId
  let n := match t.role with
    | .connect => greetingEncodeConnect (cstr t.instanceId) outLen
    | .register => greetingEncodeRegister token id outLen
    | .listen => greetingEncodeListen token id outLen
    | .other => none
  n.filter (fun msg => decide (msg.length < outLen))

/-- `send_pigeon_handshake`. -/
def sendPigeonHandshake (t : Transport) : Option Bytes := (buildHandshake t 256).map frame

def greetingAck (arrives : Bytes) : Option Bytes :=
  if arrives.length < 4 then none
  else if 64 ≤ ofBe (arrives.take 4) then none
  else if (arrives.drop 4).length < ofBe (arrives.take 4) then none
  else some ((arrives.drop 4).take (ofBe (arrives.take 4)))

/-- `read_greeting_ack`. -/
def readGreetingAck (t : Transport) (arrives : Bytes) : Option Transport :=
  (greetingAck arrives).map (fun payload =>
    if t.role = .register then
      { t with instanceId := payload ++ 0 :: t.instanceId.drop (payload.length + 1) }
    else t)

/-- `pigeon_ngtcp2_transport_init`: the transport, and the octets that it wrote on the primary stream. -/
def transportInit (net : Network) (cfg : Config) : Option (Transport × Bytes) :=
  if (cfg.role = .connect ∨ cfg.role = .listen) ∧ given cfg.instanceId = [] then none
  else if net.connects then
    (sendPigeonHandshake (retain cfg)).bind (fun octets =>
      if net.writes then (readGreetingAck (retain cfg) net.arrives).map (·,octets) else none)
  else none

structure ListenDialCtx where
  instanceId : Bytes
  token : Option Bytes

/-- `pigeon_register`: the context of the listen dialer, and the octets written. -/
def pigeonRegister (net : Network) (selfInstanceId token : Option Bytes) : Option (ListenDialCtx × Bytes) :=
  (transportInit net ⟨.register,selfInstanceId,token⟩).map (fun (ctrl,octets) =>
    (⟨snprintf (zeroed 64) ctrl.instanceId,
      (token.filter (fun s => decide (cstr s ≠ []))).map (snprintf (zeroed 128))⟩,octets))

/-- `ngtcp2_dial_listen`. -/
def dialListen (net : Network) (ctx : ListenDialCtx) : Option Bytes :=
  (transportInit net ⟨.listen,some ctx.instanceId,ctx.token⟩).map Prod.snd

/-- `pigeon_connect`. -/
def pigeonConnect (net : Network) (peerInstanceId : Bytes) (token : Option Bytes) : Option Bytes :=
  (transportInit net ⟨.connect,some peerInstanceId,token⟩).map Prod.snd

def Role.variant : Role → Option RelayGreetingVariant
  | .connect => some .connect
  | .register => some .register
  | .listen => some .listen
  | .other => none

def greetingOf (instanceId token : Bytes) : RelayGreetingVariant → Bytes
  | .connect => encodeRelayGreetingConnect instanceId
  | .register => encodeRelayGreetingRegister token instanceId
  | .listen => encodeRelayGreetingListen token instanceId

theorem cstr_retained (size : Nat) (s : Option Bytes) :
    cstr ((s.map (snprintf (zeroed size))).getD (zeroed size)) = (given s).take (size - 1) := by
  cases s with
  | none => simp [given,cstr_zeroed]
  | some s => simp [given,cstr_snprintf,zeroed]

theorem length_encode_suffix_le (u : WireUnion) (suffix : u.colonSuffix ≠ []) (token instanceId : Bytes) :
    (u.encode [token,instanceId]).length ≤ u.lead.length + token.length + instanceId.length + 2 := by
  rcases encode_suffix u suffix token instanceId with ⟨-,-,written⟩ | written <;> rw [written]
  · omega
  · simp only [length_append,length_cons]
    omega

theorem buildHandshake_retain (cfg : Config) : buildHandshake (retain cfg) 256 =
      cfg.role.variant.map (greetingOf ((given cfg.instanceId).take 63) ((given cfg.token).take 127)) := by
  have id : cstr (retain cfg).instanceId = (given cfg.instanceId).take 63 := cstr_retained 64 cfg.instanceId
  have token : cstr (retain cfg).token = (given cfg.token).take 127 := cstr_retained 128 cfg.token
  have idLength := length_take_le 63 (given cfg.instanceId)
  have tokenLength := length_take_le 127 (given cfg.token)
  -- Both variants with a suffix, by the length of what they begin with.
  have suffixed (u : WireUnion) (suffix : u.colonSuffix ≠ []) (short : u.lead.length ≤ 8) :
      (greetingEncodeSuffix u.lead (pointer (retain cfg).token) (pointer (retain cfg).instanceId) 256).filter
          (fun msg => decide (msg.length < 256)) =
        some (u.encode [(given cfg.token).take 127,(given cfg.instanceId).take 63]) := by
    have room := length_encode_suffix_le u suffix ((given cfg.token).take 127) ((given cfg.instanceId).take 63)
    rw [greetingEncodeSuffix_eq suffix (by rw [given_pointer,given_pointer,id,token]; omega),
      given_pointer,given_pointer,id,token]
    exact filter_some_pos (by simpa using by omega)
  have role : (retain cfg).role = cfg.role := rfl
  unfold buildHandshake
  cases which : cfg.role with
  | connect =>
    have room : (encodeRelayGreetingConnect ((given cfg.instanceId).take 63)).length < 256 := by
      have lead : (ascii "connect:").length = 8 := by decide
      rw [encode_connect,length_append]
      omega
    have encoded : greetingEncodeConnect ((given cfg.instanceId).take 63) 256 = some _ :=
      greetingEncodeConnect_eq (by omega)
    simp only [role,which,id,encoded]
    exact filter_some_pos (by simpa using room)
  | register =>
    simp only [role,which]
    exact suffixed registerUnion (by decide) (by decide)
  | listen =>
    simp only [role,which]
    exact suffixed listenUnion (by decide) (by decide)
  | other => simp [role,which,Role.variant]

variable {net : Network} {octets : Bytes}

theorem transportInit_eq_some {cfg : Config} {t : Transport} (succeeded : transportInit net cfg = some (t,octets)) :
    ∃ variant, cfg.role.variant = some variant ∧
      octets = frame (greetingOf ((given cfg.instanceId).take 63) ((given cfg.token).take 127) variant) ∧
      readGreetingAck (retain cfg) net.arrives = some t := by
  unfold transportInit at succeeded
  split_ifs at succeeded with required connects writes
  · obtain ⟨written,sent,rest⟩ := bind_eq_some_iff.mp succeeded
    obtain ⟨acked,ack,same⟩ := map_eq_some_iff.mp rest
    cases same
    rw [sendPigeonHandshake,buildHandshake_retain,Option.map_map] at sent
    obtain ⟨variant,which,shape⟩ := map_eq_some_iff.mp sent
    exact ⟨variant,which,shape.symm,ack⟩
  · simp at succeeded

/-- `QUICServer.handleConnection`. -/
def handleConnection (stream : Bytes) : Except String RelayGreetingDecoded :=
  match (readMessage stream).2 with
  | none => .error "failed to read handshake"
  | some handshake => (decodeRelayGreeting handshake).mapError (fun _ => "bad handshake")

/-- The ways to a greeting, by the initialisation itself or by the functions that lead to it. -/
inductive Call
  | init (cfg : Config)
  | register (selfInstanceId token : Option Bytes)
  | connect (peerInstanceId : Bytes) (token : Option Bytes)
  | dialListen (registration : Network) (selfInstanceId token : Option Bytes)

def Call.written (net : Network) : Call → Option Bytes
  | .init cfg => (transportInit net cfg).map Prod.snd
  | .register selfInstanceId token => (pigeonRegister net selfInstanceId token).map Prod.snd
  | .connect peerInstanceId token => pigeonConnect net peerInstanceId token
  | .dialListen registration selfInstanceId token =>
    (pigeonRegister registration selfInstanceId token).bind (fun (ctx,_) => NativeGreeting.dialListen net ctx)

structure Given where
  role : Role
  (instanceId token : Bytes)
deriving DecidableEq

def Call.given : Call → Given
  | .init cfg => ⟨cfg.role,NativeGreeting.given cfg.instanceId,NativeGreeting.given cfg.token⟩
  | .register selfInstanceId token => ⟨.register,NativeGreeting.given selfInstanceId,NativeGreeting.given token⟩
  | .connect peerInstanceId token => ⟨.connect,cstr peerInstanceId,NativeGreeting.given token⟩
  | .dialListen registration _ token =>
    ⟨.listen,cstr ((greetingAck registration.arrives).getD []),NativeGreeting.given token⟩

theorem cstr_append_zero_cons (s rest : Bytes) : cstr (s ++ 0 :: rest) = cstr s := by
  induction s with
  | nil => rfl
  | cons c s ih =>
    by_cases zero : c = 0
    · simp [cstr,zero]
    · simpa [cstr,zero] using ih

theorem readGreetingAck_register {t acked arrives} (role : t.role = .register)
    (read : readGreetingAck t arrives = some acked) :
    cstr acked.instanceId = cstr ((greetingAck arrives).getD []) := by
  obtain ⟨payload,arrived,rfl⟩ := map_eq_some_iff.mp read
  rw [if_pos role,arrived,cstr_append_zero_cons,getD_some]

theorem pigeonRegister_eq_some {selfInstanceId : Option Bytes} {ctx : ListenDialCtx}
    (registered : pigeonRegister net selfInstanceId token = some (ctx,octets)) :
    cstr ctx.instanceId = (cstr ((greetingAck net.arrives).getD [])).take 63 ∧
      given ctx.token = (given token).take 127 := by
  obtain ⟨⟨ctrl,written⟩,started,same⟩ := map_eq_some_iff.mp registered
  cases same
  obtain ⟨-,-,-,acked⟩ := transportInit_eq_some started
  constructor
  · rw [cstr_snprintf,readGreetingAck_register rfl acked,zeroed,length_replicate]
  · cases token with
    | none => rfl
    | some s =>
      by_cases empty : cstr s = []
      · simp [given,filter_some,empty]
      · simp only [filter_some,empty,given,ne_eq,not_false_eq_true,decide_true,if_true,map_some]
        rw [cstr_snprintf,zeroed,length_replicate]

theorem Call.written_eq_some {call : Call} (succeeded : call.written net = some octets) :
    ∃ variant, call.given.role.variant = some variant ∧
      octets = frame (greetingOf (call.given.instanceId.take 63) (call.given.token.take 127) variant) := by
  cases call with
  | init | connect =>
    obtain ⟨⟨t,written⟩,started,rfl⟩ := map_eq_some_iff.mp succeeded
    obtain ⟨variant,which,shape,-⟩ := transportInit_eq_some started
    exact ⟨variant,which,shape⟩
  | register selfInstanceId token =>
    obtain ⟨⟨ctx,written⟩,registered,rfl⟩ := map_eq_some_iff.mp succeeded
    obtain ⟨⟨ctrl,sent⟩,started,same⟩ := map_eq_some_iff.mp registered
    cases same
    obtain ⟨variant,which,shape,-⟩ := transportInit_eq_some started
    exact ⟨variant,which,shape⟩
  | dialListen registration selfInstanceId token =>
    obtain ⟨⟨ctx,first⟩,registered,dialled⟩ := bind_eq_some_iff.mp succeeded
    obtain ⟨⟨t,written⟩,started,rfl⟩ := map_eq_some_iff.mp dialled
    obtain ⟨variant,which,shape,-⟩ := transportInit_eq_some started
    obtain ⟨id,tokens⟩ := pigeonRegister_eq_some registered
    refine ⟨variant,which,?_⟩
    have copied : NativeGreeting.given (some ctx.instanceId) = cstr ctx.instanceId := rfl
    rw [shape,copied,id,tokens,take_take,take_take]
    rfl

theorem head_splitN_eq (token rest : Bytes) :
    (splitN colon 2 (token ++ colon :: rest)).getD 0 [] = token.takeWhile (· ≠ colon) := by
  have cut : (token ++ colon :: rest).takeWhile (· ≠ colon) = token.takeWhile (· ≠ colon) := by
    induction token with
    | nil => simp
    | cons c token ih =>
      by_cases found : c = colon
      · simp [found]
      · simpa [found] using ih
  rw [splitN]
  split
  next all =>
    have stays := dropWhile_eq_nil_iff.mp all colon (by simp)
    simp at stays
  next => exact cut

variable {variant : RelayGreetingVariant}

theorem decode_cut_suffix_iff {u : WireUnion} (suffix : u.colonSuffix ≠ [])
    (bare : decodeRelayGreeting u.lead = .ok ⟨variant,[],[]⟩)
    (behind : ∀ rest, decodeRelayGreeting (u.lead ++ colon :: rest) = .ok (suffixed variant (splitN colon 2 rest)))
    (token instanceId : Bytes) (m n : Nat) :
    decodeRelayGreeting (u.encode [token.take m,instanceId.take n]) = .ok ⟨variant,instanceId,token⟩ ↔
      instanceId.length ≤ n ∧ token.length ≤ m ∧ colon ∉ token := by
  constructor
  · intro decoded
    have whole : token.take m = token := by
      rcases encode_suffix u suffix (token.take m) (instanceId.take n) with ⟨none,-,written⟩ | written
      · rw [written,bare] at decoded
        have same : [] = token := congrArg RelayGreetingDecoded.token (Except.ok.inj decoded)
        rw [← same,take_nil]
      · rw [written,behind] at decoded
        have first : (token.take m).takeWhile (· ≠ colon) = token := by
          rw [← head_splitN_eq _ (instanceId.take n)]
          exact congrArg RelayGreetingDecoded.token (Except.ok.inj decoded)
        have short := (takeWhile_sublist (l := token.take m) (· ≠ colon)).length_le
        rw [first,length_take] at short
        exact take_of_length_le (by omega)
    rw [whole] at decoded
    have clean : colon ∉ token := by
      rcases encode_suffix u suffix token (instanceId.take n) with ⟨rfl,-,-⟩ | written
      · simp
      · rw [written,behind] at decoded
        have first := congrArg RelayGreetingDecoded.token (Except.ok.inj decoded)
        rw [suffixed,head_splitN_eq] at first
        exact takeWhile_eq_self_iff_notMem.mp first
    have read := (suffix_round_trip_iff suffix bare behind token (instanceId.take n)).mpr clean
    rw [decoded] at read
    have same : instanceId = instanceId.take n := congrArg RelayGreetingDecoded.instanceId (Except.ok.inj read)
    exact ⟨(take_eq_self_iff _).mp same.symm,(take_eq_self_iff _).mp whole,clean⟩
  · rintro ⟨shortId,shortToken,clean⟩
    rw [take_of_length_le shortId,take_of_length_le shortToken]
    exact (suffix_round_trip_iff suffix bare behind token instanceId).mpr clean

def Given.sent (g : Given) : Bytes := if g.role = .connect then [] else g.token

def Given.Fits (g : Given) : Prop :=
  g.instanceId.length ≤ 63 ∧ g.sent.length ≤ 127 ∧ colon ∉ g.sent
deriving Decidable

theorem decode_greetingOf_iff {g : Given} (role : g.role.variant = some variant) :
    decodeRelayGreeting (greetingOf (g.instanceId.take 63) (g.token.take 127) variant) =
      .ok ⟨variant,g.instanceId,g.sent⟩ ↔ g.Fits := by
  obtain ⟨r,instanceId,token⟩ := g
  cases r with
  | connect =>
    cases role
    simp [greetingOf,encode_connect,decode_connect,Given.Fits,Given.sent]
  | register =>
    cases role
    exact decode_cut_suffix_iff (u := registerUnion) (by decide) (by decide) decode_register token instanceId 127 63
  | listen =>
    cases role
    exact decode_cut_suffix_iff (u := listenUnion) (by decide) (by decide) decode_listen token instanceId 127 63
  | other => cases role

theorem length_greetingOf_le (instanceId token : Bytes) (variant : RelayGreetingVariant) :
    (greetingOf instanceId token variant).length ≤ instanceId.length + token.length + 10 := by
  cases variant with
  | connect =>
    have lead : (ascii "connect:").length = 8 := by decide
    rw [greetingOf,encode_connect,length_append]
    omega
  | register =>
    have lead : registerUnion.lead.length = 8 := by decide
    have bound := length_encode_suffix_le registerUnion (by decide) token instanceId
    rw [greetingOf,encodeRelayGreetingRegister]
    omega
  | listen =>
    have lead : listenUnion.lead.length = 6 := by decide
    have bound := length_encode_suffix_le listenUnion (by decide) token instanceId
    rw [greetingOf,encodeRelayGreetingListen]
    omega

theorem handleConnection_frame {greeting : Bytes} (small : greeting.length ≤ maxMessageSize)
    (decoded : RelayGreetingDecoded) :
    handleConnection (frame greeting) = .ok decoded ↔ decodeRelayGreeting greeting = .ok decoded := by
  have read := readMessage_frame small []
  rw [append_nil] at read
  rw [handleConnection,read]
  cases shape : decodeRelayGreeting greeting <;> simp [Except.mapError,shape]

theorem read_back_iff {call : Call} (succeeded : call.written net = some octets) :
    ∃ variant, call.given.role.variant = some variant ∧
      (handleConnection octets = .ok ⟨variant,call.given.instanceId,call.given.sent⟩ ↔ call.given.Fits) := by
  obtain ⟨variant,role,rfl⟩ := call.written_eq_some succeeded
  have small := length_greetingOf_le (call.given.instanceId.take 63) (call.given.token.take 127) variant
  have idLength := length_take_le 63 call.given.instanceId
  have tokenLength := length_take_le 127 call.given.token
  refine ⟨variant,role,?_⟩
  rw [handleConnection_frame (by unfold maxMessageSize; omega)]
  exact decode_greetingOf_iff role

/-- A call whose strings fit fails, or the relay reads its role, ID and, unless it is a `connect`, its token. -/
theorem greeting_reaches_relay (net : Network) (call : Call) (fits : call.given.Fits) : call.written net = none ∨
      ∃ octets variant, call.written net = some octets ∧ call.given.role.variant = some variant ∧
        handleConnection octets = .ok ⟨variant,call.given.instanceId,call.given.sent⟩ := by
  cases written : call.written net with
  | none => exact Or.inl rfl
  | some octets =>
    obtain ⟨variant,role,read⟩ := read_back_iff written
    exact Or.inr ⟨octets,variant,rfl,role,read.mpr fits⟩

def acking : Network := ⟨true,true,frame "id"⟩

/-- The listen dial after a registration, with a token of one octet. -/
theorem listen_greeting_reaches_relay :
    (Call.dialListen acking none (some "t")).written acking = some (frame "listen:t:id") ∧
      (Call.dialListen acking none (some "t")).given = ⟨.listen,"id","t"⟩ ∧
      ((Call.dialListen acking none (some "t")).written acking = none ∨
        ∃ octets variant, (Call.dialListen acking none (some "t")).written acking = some octets ∧
          (Call.dialListen acking none (some "t")).given.role.variant = some variant ∧
          handleConnection octets = .ok ⟨variant,(Call.dialListen acking none (some "t")).given.instanceId,
            (Call.dialListen acking none (some "t")).given.sent⟩) :=
  ⟨by decide +kernel,by decide,greeting_reaches_relay acking (.dialListen acking none (some "t")) (by decide)⟩

/-- The token that `pigeon_connect` was given is not in its greeting. -/
theorem connect_sends_no_token : (Call.connect "id" (some "t")).given = ⟨.connect,"id","t"⟩ ∧
      (Call.connect "id" (some "t")).written acking = some (frame "connect:id") ∧
      handleConnection (frame "connect:id") = .ok ⟨.connect,"id",[]⟩ ∧
      handleConnection (frame "connect:id") ≠ .ok ⟨.connect,"id","t"⟩ := by
  refine ⟨by decide,by decide +kernel,by decide,by decide⟩

end Pigeon.NativeGreeting
