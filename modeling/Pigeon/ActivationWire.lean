import Pigeon.Activation

/-!
The messages of an activation as octets (`activation.c`). What the encoders write is read
back, but the decoders accept more (`decodeAuthRequest_iff`, `decodeAuthOk_iff`). Encoding what
the caller has got gives the string back just when its parts are plain
(`activation_messages_iff`).
-/
namespace Pigeon.ActivationWire
open Octets Framing KeySchedule Activation List

/-- `pigeon_encode_auth_request`. -/
def encodeAuthRequest (deviceId nonce : Bytes) (route : Option Bytes) (bufLen : Nat) : Option Bytes :=
  let id := cstr deviceId
  let path := (route.map cstr).getD []
  let wire := authMsgTagAuthRequest ::
    (putUvarint 9 id.length ++ (id ++ (nonce.take authNonceLen ++ (putUvarint 9 path.length ++ path))))
  -- The source compares the room before each part; without room for all it fails at one of them.
  if authMaxDeviceId < id.length ∨ authMaxRoute < path.length ∨ bufLen < wire.length then none
  else some wire

/-- `pigeon_decode_auth_ok`, with the room for the reason, which is read as a C string. -/
def decodeAuthOk (payload : Bytes) (outReasonCap : Nat) : Option (Bool × Bytes) :=
  match payload with
  | tag :: flag :: rest =>
    if tag ≠ authMsgTagAuthOk then none
    else if flag = authOkAccepted then some (true,[])
    else if flag = authOkRejected then do
      let (rLen,reason) ← authUvarintDecode 0 0 rest
      guard (rLen ≤ authMaxReason)
      guard (reason.length = rLen)
      return (false,cstr (reason.take (outReasonCap - 1)))
    else none
  | _ => none

def Spells (octets : Bytes) (n : Nat) : Prop := authUvarintDecode 0 0 octets = some (n,[])

def Shortest (octets : Bytes) : Prop := octets.length = 1 ∨ octets.length ≤ 9 ∧ octets.getLast? ≠ some 0
deriving Decidable

variable {value n : Nat} {octets : Bytes}

theorem decode_append {shift : Nat} (read : authUvarintDecode shift value octets = some (n,[]))
    (rest : Bytes) : authUvarintDecode shift value (octets ++ rest) = some (n,rest) := by
  induction octets generalizing shift value with
  | nil => cases read
  | cons b more ih =>
    rw [authUvarintDecode] at read
    rw [cons_append,authUvarintDecode]
    split_ifs at read ⊢
    · cases read
      rfl
    · exact ih read

theorem decode_split {shift rest} (read : authUvarintDecode shift value octets = some (n,rest)) :
    ∃ front, octets = front ++ rest ∧ authUvarintDecode shift value front = some (n,[]) := by
  induction octets generalizing shift value with
  | nil => cases read
  | cons b more ih =>
    rw [authUvarintDecode] at read
    split_ifs at read with wide low
    · cases read
      exact ⟨[b],rfl,by rw [authUvarintDecode,if_neg wide,if_pos low]⟩
    · obtain ⟨front,rfl,again⟩ := ih read
      exact ⟨b :: front,rfl,by rw [authUvarintDecode,if_neg wide,if_neg low,again]⟩

variable {i : Nat}

theorem digit_kept {digit} (low : digit < 128) (early : i ≤ 8 ∨ i = 9 ∧ digit ≤ 1) :
    digit * 2 ^ (7 * i) % 2 ^ 64 = digit * 128 ^ i := by
  have power : (2 : Nat) ^ (7 * i) = 128 ^ i := by rw [Nat.pow_mul]
  rw [power]
  refine Nat.mod_eq_of_lt ?_
  rcases early with below | ⟨rfl,bit⟩
  · calc digit * 128 ^ i < 128 * 128 ^ i := Nat.mul_lt_mul_of_pos_right low (Nat.pow_pos (by decide))
      _ = 128 ^ (i + 1) := by rw [Nat.pow_succ,Nat.mul_comm]
      _ ≤ 128 ^ 9 := Nat.pow_le_pow_right (by decide) (by omega)
      _ < 2 ^ 64 := by decide
  · calc digit * 128 ^ 9 ≤ 1 * 128 ^ 9 := Nat.mul_le_mul_right _ bit
      _ < 2 ^ 64 := by decide

theorem decode_of_getUvarint {read} (within : i ≤ 10)
    (got : getUvarint i value octets = some read) : authUvarintDecode (7 * i) value octets = some read := by
  induction octets generalizing i value with
  | nil => cases got
  | cons b more ih =>
    rw [getUvarint] at got
    split_ifs at got with last low high
    · have shift : ¬ 64 ≤ 7 * i := by omega
      have early : i ≤ 8 ∨ i = 9 ∧ b.toNat ≤ 1 := by omega
      rw [authUvarintDecode,if_neg shift,if_pos low,Nat.mod_eq_of_lt low,digit_kept low early]
      exact got
    · have shift : ¬ 64 ≤ 7 * i := by omega
      have digit : b.toNat % 128 = b.toNat - 128 := by
        have := b.toNat_lt
        omega
      by_cases tenth : i = 9
      · -- Nothing is read after a tenth octet that goes on.
        subst tenth
        cases more <;> simp [getUvarint] at got
      · rw [authUvarintDecode,if_neg shift,if_neg low,digit,digit_kept (by have := b.toNat_lt; omega) (.inl (by omega))]
        exact ih (by omega) got

theorem spells_putUvarint (small : n < 2 ^ 64) : Spells (putUvarint 9 n) n := by
  have written : getUvarint 0 0 (putUvarint 9 n ++ []) = some (0 + n * 128 ^ 0,[]) :=
    getUvarint_putUvarint rfl (by omega) 0 []
  rw [append_nil,Nat.pow_zero,Nat.mul_one,Nat.zero_add] at written
  exact decode_of_getUvarint (by decide) written

variable {b : UInt8}

theorem getLast?_cons_of_ne_nil {more} (nonempty : more ≠ []) : (b :: more).getLast? = more.getLast? := by
  cases more with
  | nil => exact absurd rfl nonempty
  | cons c more => rw [getLast?_cons_cons]

theorem putUvarint_octet (low : b.toNat < 128) (fuel : Nat) : putUvarint fuel b.toNat = [b] := by
  cases fuel with
  | zero => rw [putUvarint,UInt8.ofNat_toNat]
  | succ fuel => rw [putUvarint,if_pos low,UInt8.ofNat_toNat]

theorem cons_eq_putUvarint_iff (high : ¬ b.toNat < 128) (more : Bytes) (m fuel : Nat) :
    b :: more = putUvarint (fuel + 1) (b.toNat - 128 + 128 * m) ↔ m ≠ 0 ∧ more = putUvarint fuel m := by
  have octet := b.toNat_lt
  rw [putUvarint]
  by_cases zero : m = 0
  · rw [if_pos (by omega)]
    refine iff_of_false (fun same => ?_) (fun both => both.1 zero)
    have first := congrArg UInt8.toNat (cons.inj same).1
    rw [UInt8.toNat_ofNat'] at first
    omega
  · have digit : (b.toNat - 128 + 128 * m) % 128 + 128 = b.toNat := by omega
    have left : (b.toNat - 128 + 128 * m) / 128 = m := by omega
    rw [if_neg (by omega),digit,left,UInt8.ofNat_toNat,cons_inj_right]
    simp [zero]

theorem shortest_of_decode (read : authUvarintDecode (7 * i) value octets = some (n,[]))
    (few : i + octets.length ≤ 9) :
    ∃ m, n = value + m * 128 ^ i ∧ (m = 0 → octets.getLast? = some 0) ∧ (octets = [0] → m = 0) ∧
      ∀ fuel, fuel + i = 9 → (octets = putUvarint fuel m ↔ octets.length = 1 ∨ octets.getLast? ≠ some 0) := by
  induction octets generalizing i value with
  | nil => cases read
  | cons b more ih =>
    have octet := b.toNat_lt
    rw [length_cons] at few
    have shift : ¬ 64 ≤ 7 * i := by omega
    rw [authUvarintDecode,if_neg shift] at read
    by_cases low : b.toNat < 128
    · rw [if_pos low,Nat.mod_eq_of_lt low,digit_kept low (.inl (by omega))] at read
      cases read
      refine ⟨b.toNat,rfl,fun zero => ?_,fun zero => ?_,fun fuel _ => ?_⟩
      · rw [getLast?_singleton,← UInt8.ofNat_toNat (x := b),zero]
        rfl
      · rw [singleton_inj.mp zero]
        rfl
      · exact iff_of_true (putUvarint_octet low fuel).symm (.inl rfl)
    · have digit : b.toNat % 128 = b.toNat - 128 := by omega
      rw [if_neg low,digit,digit_kept (by omega) (.inl (by omega)),show 7 * i + 7 = 7 * (i + 1) from rfl] at read
      have nonempty : more ≠ [] := by
        rintro rfl
        cases read
      obtain ⟨m,total,last,lone,written⟩ := ih read (by omega)
      have longer : (b :: more).length ≠ 1 := by
        rw [length_cons]
        have := length_pos_iff.mpr nonempty
        omega
      refine ⟨b.toNat - 128 + 128 * m,?_,fun zero => ?_,fun one => ?_,fun fuel width => ?_⟩
      · rw [total,Nat.pow_succ]
        ring
      · rw [getLast?_cons_of_ne_nil nonempty]
        exact last (by omega)
      · rw [one] at longer
        exact absurd rfl longer
      · obtain ⟨fuel,rfl⟩ : ∃ f, fuel = f + 1 := ⟨fuel - 1,by omega⟩
        rw [cons_eq_putUvarint_iff low,written fuel (by omega),getLast?_cons_of_ne_nil nonempty]
        simp only [longer,false_or]
        constructor
        · rintro ⟨left,single | nonzero⟩ zero
          · obtain ⟨c,rfl⟩ := length_eq_one_iff.mp single
            rw [getLast?_singleton,Option.some.injEq] at zero
            exact left (lone (by rw [zero]))
          · exact nonzero zero
        · exact fun nonzero => ⟨fun none => nonzero (last none),.inr nonzero⟩

theorem length_putUvarint_small (small : n < 16384) : (putUvarint 9 n).length ≤ 2 := by
  rw [putUvarint]
  split_ifs
  · simp
  · rw [putUvarint,if_pos (by omega)]
    rfl

theorem shortest_iff (spells : Spells octets n) (small : n < 16384) : octets = putUvarint 9 n ↔ Shortest octets := by
  by_cases few : octets.length ≤ 9
  · obtain ⟨m,total,-,-,written⟩ := shortest_of_decode (i := 0) spells (by omega)
    have same : n = m := by omega
    rw [same,written 9 rfl,Shortest]
    simp [few]
  · refine iff_of_false (fun same => few ?_) ?_
    · have := length_putUvarint_small small
      rw [same]
      omega
    · rintro (one | ⟨nine,-⟩) <;> omega

/-- The parts of an `auth_request`. -/
structure RequestParts where
  (idLength deviceId nonce routeLength route : Bytes)

def RequestParts.wire (r : RequestParts) : Bytes :=
  authMsgTagAuthRequest :: (r.idLength ++ (r.deviceId ++ (r.nonce ++ (r.routeLength ++ r.route))))

def RequestParts.request (r : RequestParts) : AuthRequest := ⟨cstr r.deviceId,r.nonce,cstr r.route⟩

structure RequestParts.Fits (r : RequestParts) : Prop where
  id : Spells r.idLength r.deviceId.length
  idSize : r.deviceId.length ≤ authMaxDeviceId
  nonce : r.nonce.length = authNonceLen
  route : Spells r.routeLength r.route.length
  routeSize : r.route.length ≤ authMaxRoute

structure RequestParts.Plain (r : RequestParts) : Prop where
  id : Shortest r.idLength
  route : Shortest r.routeLength
  idClean : 0 ∉ r.deviceId
  routeClean : 0 ∉ r.route

theorem decodeAuthRequest_iff (payload : Bytes) (request : AuthRequest) :
    decodeAuthRequest payload = some request ↔ ∃ r : RequestParts, r.Fits ∧ payload = r.wire ∧ request = r.request := by
  constructor
  · intro decoded
    cases payload with
    | nil => cases decoded
    | cons tag rest =>
      simp only [decodeAuthRequest,head?_cons,tail_cons,Option.bind_eq_bind,Option.bind_some,
        Option.bind_eq_some_iff,guard_iff,Prod.exists,exists_const] at decoded
      obtain ⟨rfl,idLen,body,idRead,idSize,long,routeLen,route,routeRead,routeSize,rfl,same⟩ := decoded
      obtain ⟨idLength,rfl,idSpells⟩ := decode_split idRead
      obtain ⟨routeLength,split,routeSpells⟩ := decode_split routeRead
      have idIs : (body.take idLen).length = idLen := by rw [length_take]; omega
      have nonceIs : ((body.drop idLen).take authNonceLen).length = authNonceLen := by
        rw [length_take,length_drop]
        omega
      refine ⟨⟨idLength,body.take idLen,(body.drop idLen).take authNonceLen,routeLength,route⟩,
        ⟨?_,?_,nonceIs,routeSpells,routeSize⟩,?_,?_⟩
      · rw [idIs]
        exact idSpells
      · rw [idIs]
        exact idSize
      · rw [RequestParts.wire,← split,← drop_drop,take_append_drop,take_append_drop]
      · cases same
        rfl
  · rintro ⟨r,fits,rfl,rfl⟩
    have idRead := decode_append fits.id (r.deviceId ++ (r.nonce ++ (r.routeLength ++ r.route)))
    have routeRead := decode_append fits.route r.route
    have afterId : (r.deviceId ++ (r.nonce ++ (r.routeLength ++ r.route))).drop r.deviceId.length =
        r.nonce ++ (r.routeLength ++ r.route) := drop_left
    have after : (r.deviceId ++ (r.nonce ++ (r.routeLength ++ r.route))).drop (r.deviceId.length + authNonceLen) =
        r.routeLength ++ r.route := by
      rw [← drop_drop,afterId,← fits.nonce,drop_left]
    have nonceIs : (r.nonce ++ (r.routeLength ++ r.route)).take authNonceLen = r.nonce := by
      rw [← fits.nonce,take_left]
    have long : r.deviceId.length + authNonceLen ≤ (r.deviceId ++ (r.nonce ++ (r.routeLength ++ r.route))).length := by
      simp only [length_append,fits.nonce]
      omega
    simp only [decodeAuthRequest,RequestParts.wire,head?_cons,tail_cons,Option.bind_eq_bind,Option.bind_some,
      Option.bind_eq_some_iff,guard_iff,Prod.exists,exists_const]
    refine ⟨trivial,_,_,idRead,fits.idSize,long,_,_,by rw [after]; exact routeRead,fits.routeSize,rfl,?_⟩
    rw [take_left,afterId,nonceIs]
    rfl

theorem RequestParts.wire_injective {one two : RequestParts} (fits : one.Fits) (fits' : two.Fits)
    (same : one.wire = two.wire) : one = two := by
  obtain ⟨idLength,deviceId,nonce,routeLength,route⟩ := one
  obtain ⟨idLength',deviceId',nonce',routeLength',route'⟩ := two
  have octets : idLength ++ (deviceId ++ (nonce ++ (routeLength ++ route))) =
      idLength' ++ (deviceId' ++ (nonce' ++ (routeLength' ++ route'))) := tail_eq_of_cons_eq same
  have idRead := decode_append fits.id (deviceId ++ (nonce ++ (routeLength ++ route)))
  rw [octets,decode_append fits'.id] at idRead
  obtain ⟨idLen,body⟩ := Prod.mk.inj (Option.some.inj idRead)
  obtain rfl := append_cancel_right (octets.trans (by rw [body]))
  obtain ⟨rfl,afterId⟩ := append_inj body idLen
  obtain ⟨rfl,tail⟩ := append_inj afterId (fits'.nonce.trans fits.nonce.symm)
  have routeRead := decode_append fits.route route
  rw [← tail,decode_append fits'.route] at routeRead
  obtain ⟨-,rfl⟩ := Prod.mk.inj (Option.some.inj routeRead)
  obtain rfl := append_cancel_right tail
  rfl

def written (request : AuthRequest) : RequestParts where
  idLength := putUvarint 9 request.deviceId.length
  deviceId := request.deviceId
  nonce := request.nonce
  routeLength := putUvarint 9 request.route.length
  route := request.route

theorem encode_written (request : AuthRequest) (idClean : 0 ∉ request.deviceId) (routeClean : 0 ∉ request.route)
    (idSize : request.deviceId.length ≤ authMaxDeviceId) (nonce : request.nonce.length = authNonceLen)
    (routeSize : request.route.length ≤ authMaxRoute) :
    encodeAuthRequest request.deviceId request.nonce (some request.route) authMaxPayload = some (written request).wire := by
  have idOctets := length_putUvarint_le 9 request.deviceId.length
  have routeOctets := length_putUvarint_le 9 request.route.length
  have fits : ¬ (authMaxDeviceId < request.deviceId.length ∨ authMaxRoute < request.route.length ∨
      authMaxPayload < (written request).wire.length) := by
    simp only [written,RequestParts.wire,length_cons,length_append,nonce]
    unfold authMaxDeviceId authMaxRoute authMaxPayload authNonceLen at *
    omega
  have whole : request.nonce.take authNonceLen = request.nonce := by rw [← nonce,take_length]
  simp only [encodeAuthRequest,Option.map_some,Option.getD_some,cstr_eq_iff.mpr idClean,cstr_eq_iff.mpr routeClean,whole]
  exact if_neg fits

theorem written_fits {request : AuthRequest} (idSize : request.deviceId.length ≤ authMaxDeviceId)
    (nonce : request.nonce.length = authNonceLen) (routeSize : request.route.length ≤ authMaxRoute) :
    (written request).Fits := by
  refine ⟨spells_putUvarint ?_,idSize,nonce,spells_putUvarint ?_,routeSize⟩
  · exact Nat.lt_of_le_of_lt idSize (by decide)
  · exact Nat.lt_of_le_of_lt routeSize (by decide)

theorem RequestParts.encode_iff {r : RequestParts} (fits : r.Fits) :
    encodeAuthRequest r.request.deviceId r.request.nonce (some r.request.route) authMaxPayload = some r.wire ↔
      r.Plain := by
  have idSize : r.request.deviceId.length ≤ authMaxDeviceId := (length_cstr_le _).trans fits.idSize
  have routeSize : r.request.route.length ≤ authMaxRoute := (length_cstr_le _).trans fits.routeSize
  rw [encode_written _ (notMem_cstr _) (notMem_cstr _) idSize fits.nonce routeSize,Option.some.injEq]
  have idSmall : r.deviceId.length < 16384 := Nat.lt_of_le_of_lt fits.idSize (by decide)
  have routeSmall : r.route.length < 16384 := Nat.lt_of_le_of_lt fits.routeSize (by decide)
  constructor
  · intro same
    have parts := RequestParts.wire_injective (written_fits idSize fits.nonce routeSize) fits same
    have idIs : cstr r.deviceId = r.deviceId := congrArg RequestParts.deviceId parts
    have routeIs : cstr r.route = r.route := congrArg RequestParts.route parts
    have idLength : putUvarint 9 (cstr r.deviceId).length = r.idLength := congrArg RequestParts.idLength parts
    have routeLength : putUvarint 9 (cstr r.route).length = r.routeLength := congrArg RequestParts.routeLength parts
    rw [idIs] at idLength
    rw [routeIs] at routeLength
    exact ⟨(shortest_iff fits.id idSmall).mp idLength.symm,(shortest_iff fits.route routeSmall).mp routeLength.symm,
      cstr_eq_iff.mp idIs,cstr_eq_iff.mp routeIs⟩
  · intro plain
    have parts : written r.request = r := by
      obtain ⟨idLength,deviceId,nonce,routeLength,route⟩ := r
      simp only [written,RequestParts.request,cstr_eq_iff.mpr plain.idClean,cstr_eq_iff.mpr plain.routeClean]
      rw [← (shortest_iff fits.id idSmall).mpr plain.id,← (shortest_iff fits.route routeSmall).mpr plain.route]
    rw [parts]

/-- The parts of an `auth_ok`. -/
inductive AnswerParts
  | accepted (trailing : Bytes)
  | rejected (length reason : Bytes)

def AnswerParts.wire : AnswerParts → Bytes
  | .accepted trailing => authMsgTagAuthOk :: authOkAccepted :: trailing
  | .rejected length reason => authMsgTagAuthOk :: authOkRejected :: (length ++ reason)

def AnswerParts.answer (outReasonCap : Nat) : AnswerParts → Bool × Bytes
  | .accepted _ => (true,[])
  | .rejected _ reason => (false,cstr (reason.take (outReasonCap - 1)))

def AnswerParts.Fits : AnswerParts → Prop
  | .accepted _ => True
  | .rejected length reason => Spells length reason.length ∧ reason.length ≤ authMaxReason

def AnswerParts.Plain (outReasonCap : Nat) : AnswerParts → Prop
  | .accepted trailing => trailing = []
  | .rejected length reason => Shortest length ∧ 0 ∉ reason ∧ reason.length ≤ outReasonCap - 1

theorem decodeAuthOk_iff (payload : Bytes) (outReasonCap : Nat) (answer : Bool × Bytes) :
    decodeAuthOk payload outReasonCap = some answer ↔
      ∃ a : AnswerParts, a.Fits ∧ payload = a.wire ∧ answer = a.answer outReasonCap := by
  constructor
  · intro decoded
    unfold decodeAuthOk at decoded
    split at decoded
    next tag flag rest =>
      split_ifs at decoded with other yes no
      · cases decoded
        refine ⟨.accepted rest,trivial,?_,rfl⟩
        rw [AnswerParts.wire,not_not.mp other,yes]
      · simp only [Option.bind_eq_bind,Option.bind_eq_some_iff,guard_iff,Prod.exists,exists_const] at decoded
        obtain ⟨rLen,reason,read,size,rfl,same⟩ := decoded
        obtain ⟨length,rfl,spells⟩ := decode_split read
        cases same
        refine ⟨.rejected length reason,⟨spells,size⟩,?_,rfl⟩
        rw [AnswerParts.wire,not_not.mp other,no]
    next => cases decoded
  · rintro ⟨a,fits,rfl,rfl⟩
    cases a with
    | accepted trailing => rfl
    | rejected length reason =>
      have read := decode_append fits.1 reason
      simp only [decodeAuthOk,AnswerParts.wire,ne_eq,not_true,if_false,if_true]
      rw [if_neg (by decide)]
      simp only [Option.bind_eq_bind,Option.bind_eq_some_iff,guard_iff,Prod.exists,exists_const]
      exact ⟨_,_,read,fits.2,rfl,rfl⟩

theorem AnswerParts.encode_iff {a : AnswerParts} {outReasonCap : Nat} (fits : a.Fits) :
    encodeAuthOk (a.answer outReasonCap).1 (a.answer outReasonCap).2 = some a.wire ↔ a.Plain outReasonCap := by
  cases a with
  | accepted trailing => simp [encodeAuthOk,AnswerParts.answer,AnswerParts.wire,AnswerParts.Plain]
  | rejected length reason =>
    obtain ⟨spells,size⟩ := fits
    have part : (reason.take (outReasonCap - 1)).length ≤ reason.length := length_take_le' _ _
    have cut : (cstr (reason.take (outReasonCap - 1))).length ≤ reason.length := (length_cstr_le _).trans part
    have small : ¬ authMaxReason < (cstr (reason.take (outReasonCap - 1))).length := Nat.not_lt.mpr (cut.trans size)
    have wired : encodeAuthOk false (cstr (reason.take (outReasonCap - 1))) = some (AnswerParts.rejected length reason).wire ↔
        putUvarint 9 (cstr (reason.take (outReasonCap - 1))).length ++ cstr (reason.take (outReasonCap - 1)) =
          length ++ reason := by
      rw [encodeAuthOk,if_neg (by decide),if_neg small,Option.some.injEq,AnswerParts.wire]
      simp
    rw [AnswerParts.answer,wired,AnswerParts.Plain]
    have reasonSmall : reason.length < 16384 := Nat.lt_of_le_of_lt size (by decide)
    constructor
    · intro same
      have read := decode_append spells reason
      rw [← same,decode_append (spells_putUvarint (by omega))] at read
      have whole : cstr (reason.take (outReasonCap - 1)) = reason := congrArg Prod.snd (Option.some.inj read)
      have room : reason.length ≤ outReasonCap - 1 := by
        have lengths := congrArg List.length whole
        have cutShort := length_cstr_le (reason.take (outReasonCap - 1))
        rw [lengths,length_take] at cutShort
        omega
      rw [take_of_length_le room] at whole same
      rw [whole] at same
      exact ⟨(shortest_iff spells reasonSmall).mp (append_cancel_right same).symm,cstr_eq_iff.mp whole,room⟩
    · rintro ⟨shortest,clean,room⟩
      rw [take_of_length_le room,cstr_eq_iff.mpr clean,(shortest_iff spells reasonSmall).mpr shortest]

/-- What is encoded is decoded; what is decoded is encoded to what it was just when its parts are plain. -/
theorem activation_messages_iff (deviceId nonce route payload : Bytes) (outReasonCap : Nat) :
    (0 ∉ deviceId → deviceId.length ≤ authMaxDeviceId → nonce.length = authNonceLen →
      0 ∉ route → route.length ≤ authMaxRoute → ∃ wire,
        encodeAuthRequest deviceId nonce (some route) authMaxPayload = some wire ∧
          decodeAuthRequest wire = some ⟨deviceId,nonce,route⟩) ∧
    (∀ request, decodeAuthRequest payload = some request → ∃ r : RequestParts, r.Fits ∧ payload = r.wire ∧
        (encodeAuthRequest request.deviceId request.nonce (some request.route) authMaxPayload = some payload ↔
          r.Plain)) ∧
    (∀ one two : RequestParts, one.Fits → two.Fits → one.Plain → two.Plain →
      decodeAuthRequest one.wire = decodeAuthRequest two.wire → one.wire = two.wire) ∧
    (∀ ok reason, decodeAuthOk payload outReasonCap = some (ok,reason) →
      ∃ a : AnswerParts, a.Fits ∧ payload = a.wire ∧
        (encodeAuthOk ok reason = some payload ↔ a.Plain outReasonCap)) := by
  refine ⟨?_,?_,?_,?_⟩
  · intro idClean idSize nonceSize routeClean routeSize
    have encoded := encode_written ⟨deviceId,nonce,route⟩ idClean routeClean idSize nonceSize routeSize
    refine ⟨_,encoded,(decodeAuthRequest_iff _ _).mpr ⟨_,written_fits idSize nonceSize routeSize,rfl,?_⟩⟩
    rw [written,RequestParts.request,cstr_eq_iff.mpr idClean,cstr_eq_iff.mpr routeClean]
  · intro request decoded
    obtain ⟨r,fits,rfl,rfl⟩ := (decodeAuthRequest_iff payload request).mp decoded
    exact ⟨r,fits,rfl,RequestParts.encode_iff fits⟩
  · intro one two fits fits' plain plain' same
    rw [(decodeAuthRequest_iff _ _).mpr ⟨one,fits,rfl,rfl⟩,(decodeAuthRequest_iff _ _).mpr ⟨two,fits',rfl,rfl⟩,
      Option.some.injEq] at same
    have encoded := (RequestParts.encode_iff fits).mpr plain
    rw [same,(RequestParts.encode_iff fits').mpr plain'] at encoded
    exact (Option.some.inj encoded).symm
  · intro ok reason decoded
    obtain ⟨a,fits,rfl,same⟩ := (decodeAuthOk_iff payload outReasonCap (ok,reason)).mp decoded
    have encoded : encodeAuthOk (a.answer outReasonCap).1 (a.answer outReasonCap).2 = some a.wire ↔ a.Plain outReasonCap :=
      AnswerParts.encode_iff fits
    rw [← same] at encoded
    exact ⟨a,fits,rfl,encoded⟩

def requestOfA (length : Bytes) : Bytes := authMsgTagAuthRequest :: (length ++ ([97] ++ (replicate 16 7 ++ [0])))

theorem plain_messages_round_trip :
    (∃ wire, encodeAuthRequest [97] (replicate 16 7) (some []) authMaxPayload = some wire ∧
      decodeAuthRequest wire = some ⟨[97],replicate 16 7,[]⟩) ∧
    (∃ r : RequestParts, r.Fits ∧ requestOfA [1] = r.wire ∧
      (encodeAuthRequest [97] (replicate 16 7) (some []) authMaxPayload = some (requestOfA [1]) ↔ r.Plain)) ∧
    (∀ r : RequestParts, r.Fits → r.Plain → decodeAuthRequest r.wire = decodeAuthRequest (requestOfA [1]) →
      r.wire = requestOfA [1]) ∧
    ∃ a : AnswerParts, a.Fits ∧ [2,1] = a.wire ∧ (encodeAuthOk true [] = some [2,1] ↔ a.Plain 0) :=
  have requests := activation_messages_iff [97] (replicate 16 7) [] (requestOfA [1]) 0
  have answers := activation_messages_iff [97] (replicate 16 7) [] [2,1] 0
  ⟨requests.1 (by decide) (by decide) (by decide) (by decide) (by decide),
    requests.2.1 ⟨[97],replicate 16 7,[]⟩ (by decide),
    fun r fits plain => requests.2.2.1 r ⟨[1],[97],replicate 16 7,[0],[]⟩ fits
      ⟨rfl,by decide,by decide,rfl,by decide⟩ plain ⟨by decide,by decide,by decide,by decide⟩,
    answers.2.2.2 true [] (by decide)⟩

/-- A superfluous octet in the length, lost bits of it, a NUL in the device ID or the route; and anything behind an
    accepting answer. -/
theorem one_request_spelt_five_ways :
    (∀ payload ∈ [requestOfA [1],requestOfA [0x81,0],requestOfA [0x81,0x80,0x80,0x80,0x80,0x80,0x80,0x80,0x80,2],
        authMsgTagAuthRequest :: ([3,97,0,98] ++ (replicate 16 7 ++ [0])),
        authMsgTagAuthRequest :: ([1,97] ++ (replicate 16 7 ++ [2,0,98]))],
      decodeAuthRequest payload = some ⟨[97],replicate 16 7,[]⟩) ∧
    encodeAuthRequest [97] (replicate 16 7) (some []) authMaxPayload = some (requestOfA [1]) ∧
    decodeAuthOk [2,1,104,105] 257 = some (true,[]) ∧ encodeAuthOk true [] = some [2,1] := by
  decide +kernel

end Pigeon.ActivationWire
