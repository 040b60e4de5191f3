import Dcurl.RemoteInterface

/-! `wait_response_message` of `remote_common.c`: the frames of a connection up to the
reply. The copy at its end reads the variable that every wait overwrites. -/
namespace Dcurl

def amqpBasicDeliverMethod : UInt32 := 0x003C003C

inductive Frame where
  | method (id : UInt32)
  | header (bodySize : UInt64)
  | body (fragment : List Int8)
  /-- A heartbeat, or a frame of another type. -/
  | other

/-- What `amqp_simple_wait_frame_noblock` and `amqp_get_rpc_reply` answer. -/
inductive Arrival where
  | error
  | badReply
  | frame (frame : Frame)

structure Response where
  returned : Bool
  frameBody : List Int8

/-- `memcpy` from the fragment of `frame`; none where the bytes it reads are not all
of a fragment. -/
def copyBody (frame : Frame) (bodyLen : Nat) (frameBody : List Int8) : Option Response :=
  match frame with
  | .body fragment =>
      if bodyLen ≤ fragment.length then
        some ⟨true, fragment.take bodyLen ++ frameBody.drop bodyLen⟩
      else none
  | _ => if bodyLen = 0 then some ⟨true, frameBody⟩ else none

def waitBody (bodyTarget : UInt64) (bodyLen : Nat) (frameBody : List Int8) (frame : Frame)
    (bodyReceived : UInt64) (arrivals : List Arrival) : Option Response :=
  if bodyReceived < bodyTarget then
    match arrivals with
    | .frame (.body fragment) :: rest =>
        waitBody bodyTarget bodyLen frameBody (.body fragment)
          (bodyReceived + .ofNat fragment.length) rest
    | _ => some ⟨false, frameBody⟩
  else if bodyReceived ≠ bodyTarget then some ⟨false, frameBody⟩
  else copyBody frame bodyLen frameBody

/-- The outer loop. When nothing arrives any more, the wait times out. -/
def waitDelivery (bodyLen : Nat) (frameBody : List Int8) : List Arrival → Option Response
  | .frame (.method id) :: rest =>
      if id ≠ amqpBasicDeliverMethod then waitDelivery bodyLen frameBody rest
      else match rest with
        | .frame (.header bodySize) :: rest =>
            waitBody bodySize bodyLen frameBody (.header bodySize) 0 rest
        | _ => some ⟨false, frameBody⟩
  | .frame _ :: rest => waitDelivery bodyLen frameBody rest
  | _ => some ⟨false, frameBody⟩

def waitResponseMessage (consumes : Bool) (arrivals : List Arrival) (bodyLen : Nat)
    (frameBody : List Int8) : Option Response :=
  if !consumes then some ⟨false, frameBody⟩ else waitDelivery bodyLen frameBody arrivals

structure Complete (bodySize received : UInt64) (fragments : List (List Int8)) : Prop where
  short : ∀ k < fragments.length,
    received + .ofNat (fragments.take k).flatten.length < bodySize
  full : received + .ofNat fragments.flatten.length = bodySize

inductive Delivers : List Arrival → UInt64 → List (List Int8) → Prop where
  | skip {frame : Frame} {rest : List Arrival} {bodySize : UInt64} {fragments : List (List Int8)} :
      frame ≠ .method amqpBasicDeliverMethod → Delivers rest bodySize fragments →
        Delivers (.frame frame :: rest) bodySize fragments
  | deliver {rest : List Arrival} {bodySize : UInt64} {fragments : List (List Int8)} :
      Complete bodySize 0 fragments →
        Delivers (.frame (.method amqpBasicDeliverMethod) :: .frame (.header bodySize) ::
          (fragments.map (fun fragment => .frame (.body fragment)) ++ rest)) bodySize fragments

/-- A reply is taken whole, or `frameBody` is left alone. -/
def Reassembles (consumes : Bool) (arrivals : List Arrival) (bodyLen : Nat)
    (frameBody : List Int8) : Prop :=
  ∃ response, waitResponseMessage consumes arrivals bodyLen frameBody = some response ∧
    (response.returned = true → ∃ bodySize fragments, Delivers arrivals bodySize fragments ∧
      bodyLen ≤ bodySize.toNat ∧
        response.frameBody = fragments.flatten.take bodyLen ++ frameBody.drop bodyLen) ∧
    (response.returned = false → response.frameBody = frameBody)

section loop

variable {bodySize received : UInt64} {fragment : List Int8} {fragments : List (List Int8)}
  {arrivals rest : List Arrival} {bodyLen : Nat} {frameBody : List Int8} {frame : Frame}

theorem complete_nil : Complete bodySize received [] ↔ received = bodySize := by
  constructor
  · intro h
    have hfull := h.full
    rw [List.flatten_nil, List.length_nil] at hfull
    rw [← hfull]
    exact (UInt64.add_zero _).symm
  · intro h
    exact ⟨fun k hk => absurd hk (Nat.not_lt_zero k), by rw [h]; exact UInt64.add_zero _⟩

theorem complete_cons : Complete bodySize received (fragment :: fragments) ↔
    received < bodySize ∧ Complete bodySize (received + .ofNat fragment.length) fragments := by
  have hsum : ∀ rest : List (List Int8), received + .ofNat (fragment :: rest).flatten.length =
      received + .ofNat fragment.length + .ofNat rest.flatten.length := by
    intro rest
    rw [List.flatten_cons, List.length_append, UInt64.ofNat_add, UInt64.add_assoc]
  constructor
  · intro h
    refine ⟨?_, ?_, ?_⟩
    · have hfirst := h.short 0 (Nat.zero_lt_succ _)
      rw [List.take_zero, List.flatten_nil, List.length_nil] at hfirst
      rw [← UInt64.add_zero received]
      exact hfirst
    · intro k hk
      rw [← hsum, ← List.take_succ_cons]
      exact h.short (k + 1) (Nat.succ_lt_succ hk)
    · rw [← hsum]
      exact h.full
  · intro ⟨hlt, h⟩
    refine ⟨?_, ?_⟩
    · intro k hk
      cases k with
      | zero =>
          rw [List.take_zero, List.flatten_nil, List.length_nil]
          rw [← UInt64.add_zero received] at hlt
          exact hlt
      | succ k =>
          rw [List.take_succ_cons, hsum]
          exact h.short k (Nat.lt_of_succ_lt_succ hk)
    · rw [hsum]
      exact h.full

theorem Complete.le_length (h : Complete bodySize 0 fragments) :
    bodySize.toNat ≤ fragments.flatten.length := by
  rw [← h.full, UInt64.zero_add, UInt64.toNat_ofNat']
  exact Nat.mod_le _ _

theorem Delivers.complete (h : Delivers arrivals bodySize fragments) :
    Complete bodySize 0 fragments := by
  induction h with
  | skip _ _ ih => exact ih
  | deliver hcomplete => exact hcomplete

theorem waitBody_of_complete (h : Complete bodySize received fragments) :
    waitBody bodySize bodyLen frameBody frame received
        (fragments.map (fun fragment => .frame (.body fragment)) ++ rest) =
      copyBody ((fragments.getLast?.map .body).getD frame) bodyLen frameBody := by
  induction fragments generalizing frame received with
  | nil =>
      rw [complete_nil] at h
      unfold waitBody
      rw [h, if_neg (UInt64.lt_irrefl _), if_neg (not_not_intro rfl)]
      rfl
  | cons fragment fragments ih =>
      have ⟨hlt, hrest⟩ := complete_cons.mp h
      unfold waitBody
      rw [if_pos hlt]
      calc _ = waitBody bodySize bodyLen frameBody (.body fragment)
            (received + .ofNat fragment.length)
            (fragments.map (fun fragment => .frame (.body fragment)) ++ rest) := rfl
        _ = copyBody ((fragments.getLast?.map .body).getD (.body fragment)) bodyLen frameBody :=
          ih hrest
        _ = _ := by
          rw [List.getLast?_cons]
          cases fragments.getLast? <;> rfl

theorem waitBody_cases (bodySize received : UInt64) (bodyLen : Nat) (frameBody : List Int8)
    (frame : Frame) (arrivals : List Arrival) :
    waitBody bodySize bodyLen frameBody frame received arrivals = some ⟨false, frameBody⟩ ∨
      ∃ fragments rest, Complete bodySize received fragments ∧
        arrivals = fragments.map (fun fragment => .frame (.body fragment)) ++ rest := by
  fun_induction waitBody bodySize bodyLen frameBody frame received arrivals with
  | case1 frame received hlt fragment rest ih =>
      obtain hfalse | ⟨fragments, rest', hcomplete, hrest⟩ := ih
      · exact Or.inl hfalse
      · right
        refine ⟨fragment :: fragments, rest', complete_cons.mpr ⟨hlt, hcomplete⟩, ?_⟩
        rw [hrest]
        rfl
  | case2 => exact Or.inl rfl
  | case3 => exact Or.inl rfl
  | case4 arrivals frame received hlt heq =>
      right
      exact ⟨[], arrivals, complete_nil.mpr (not_not.mp heq), rfl⟩

theorem Complete.unique {fragments' : List (List Int8)} {rest' : List Arrival}
    (h : Complete bodySize received fragments) (h' : Complete bodySize received fragments')
    (heq : fragments.map (fun fragment => Arrival.frame (.body fragment)) ++ rest =
      fragments'.map (fun fragment => Arrival.frame (.body fragment)) ++ rest') :
    fragments = fragments' := by
  induction fragments generalizing received fragments' with
  | nil =>
      cases fragments' with
      | nil => rfl
      | cons fragment fragments' =>
          rw [complete_nil.mp h] at h'
          exact absurd (complete_cons.mp h').1 (UInt64.lt_irrefl _)
  | cons fragment fragments ih =>
      cases fragments' with
      | nil =>
          rw [complete_nil.mp h'] at h
          exact absurd (complete_cons.mp h).1 (UInt64.lt_irrefl _)
      | cons fragment' fragments' =>
          rw [List.map_cons, List.map_cons, List.cons_append, List.cons_append] at heq
          injection heq with hhead htail
          injection hhead with hbody
          injection hbody with hfragment
          subst hfragment
          rw [ih (complete_cons.mp h).2 (complete_cons.mp h').2 htail]

theorem Delivers.unique {bodySize' : UInt64} {fragments' : List (List Int8)}
    (h : Delivers arrivals bodySize fragments) (h' : Delivers arrivals bodySize' fragments') :
    bodySize = bodySize' ∧ fragments = fragments' := by
  induction h with
  | skip hframe _ ih =>
      cases h' with
      | skip _ hrest => exact ih hrest
      | deliver => exact absurd rfl hframe
  | deliver hcomplete =>
      generalize harrivals : Arrival.frame (.method amqpBasicDeliverMethod) :: _ = arrivals at h'
      cases h' with
      | skip hframe _ =>
          injection harrivals with hhead _
          injection hhead with hmethod
          exact absurd hmethod.symm hframe
      | deliver hcomplete' =>
          injection harrivals with _ htail
          injection htail with hhead hbody
          injection hhead with hheader
          injection hheader with hsize
          subst hsize
          exact ⟨rfl, hcomplete.unique hcomplete' hbody⟩

theorem waitDelivery_of_delivers (h : Delivers arrivals bodySize fragments) :
    waitDelivery bodyLen frameBody arrivals =
      copyBody ((fragments.getLast?.map .body).getD (.header bodySize)) bodyLen frameBody := by
  induction h with
  | @skip frame rest _ _ hframe _ ih =>
      cases frame with
      | method id =>
          unfold waitDelivery
          rw [if_pos (fun hid => hframe (by rw [hid]))]
          exact ih
      | header | body | other =>
          rw [waitDelivery]
          · exact ih
          · exact fun _ h => nomatch h
  | deliver hcomplete =>
      rw [waitDelivery, if_neg (not_not_intro rfl)]
      exact waitBody_of_complete hcomplete

theorem waitDelivery_of_not (h : ∀ bodySize fragments, ¬Delivers arrivals bodySize fragments) :
    waitDelivery bodyLen frameBody arrivals = some ⟨false, frameBody⟩ := by
  fun_induction waitDelivery bodyLen frameBody arrivals with
  | case1 id rest hid ih =>
      apply ih
      intro bodySize fragments hdelivers
      exact h bodySize fragments (.skip (fun heq => hid (Frame.method.inj heq)) hdelivers)
  | case2 id hid bodySize rest =>
      obtain hfalse | ⟨fragments, rest', hcomplete, hrest⟩ :=
        waitBody_cases bodySize 0 bodyLen frameBody (.header bodySize) rest
      · exact hfalse
      · rw [hrest, not_not.mp hid] at h
        exact absurd (.deliver hcomplete) (h bodySize fragments)
  | case3 => rfl
  | case4 frame rest hframe ih =>
      apply ih
      intro bodySize fragments hdelivers
      exact h bodySize fragments (.skip (hframe _) hdelivers)
  | case5 => rfl

theorem copyBody_eq_some {response : Response} :
    copyBody ((fragments.getLast?.map .body).getD (.header bodySize)) bodyLen frameBody =
        some response ↔
      bodyLen ≤ (fragments.getLastD []).length ∧
        ⟨true, (fragments.getLastD []).take bodyLen ++ frameBody.drop bodyLen⟩ = response := by
  rw [List.getLastD_eq_getLast?]
  cases fragments.getLast? with
  | none =>
      show (if bodyLen = 0 then some _ else none) = _ ↔ bodyLen ≤ 0 ∧ _
      by_cases hzero : bodyLen = 0
      · subst hzero
        rw [if_pos rfl, Option.some_inj]
        exact (and_iff_right (Nat.le_refl 0)).symm
      · rw [if_neg hzero]
        exact iff_of_false nofun (fun h => hzero (Nat.le_zero.mp h.1))
  | some last =>
      show (if bodyLen ≤ last.length then some _ else none) = _ ↔ bodyLen ≤ last.length ∧ _
      by_cases hle : bodyLen ≤ last.length
      · rw [if_pos hle, Option.some_inj]
        exact (and_iff_right hle).symm
      · rw [if_neg hle]
        exact iff_of_false nofun (fun h => hle h.1)

end loop

/-- The reply is right exactly when the last fragment alone starts as the whole body. -/
theorem reassembles_iff (consumes : Bool) (arrivals : List Arrival) (bodyLen : Nat)
    (frameBody : List Int8) :
    Reassembles consumes arrivals bodyLen frameBody ↔
      (consumes = true → ∀ bodySize fragments, Delivers arrivals bodySize fragments →
        bodyLen ≤ bodySize.toNat ∧
          (fragments.getLastD []).take bodyLen = fragments.flatten.take bodyLen) := by
  unfold Reassembles waitResponseMessage
  cases consumes with
  | false =>
      refine iff_of_true ⟨⟨false, frameBody⟩, rfl, nofun, fun _ => rfl⟩ nofun
  | true =>
      constructor
      · rintro ⟨response, hresponse, htrue, _⟩ _ bodySize fragments hdelivers
        have hcopy := (waitDelivery_of_delivers hdelivers).symm.trans hresponse
        obtain ⟨_, rfl⟩ := copyBody_eq_some.mp hcopy
        have ⟨bodySize', fragments', hdelivers', hlen, hbody⟩ := htrue rfl
        obtain ⟨rfl, rfl⟩ := hdelivers.unique hdelivers'
        exact ⟨hlen, List.append_cancel_right hbody⟩
      · intro h
        by_cases hdelivers : ∃ bodySize fragments, Delivers arrivals bodySize fragments
        · obtain ⟨bodySize, fragments, hdelivers⟩ := hdelivers
          have ⟨hlen, hlast⟩ := h rfl bodySize fragments hdelivers
          have hlength := congrArg List.length hlast
          rw [List.length_take, List.length_take] at hlength
          have htotal := hdelivers.complete.le_length
          have hle : bodyLen ≤ (fragments.getLastD []).length := by omega
          refine ⟨_, (waitDelivery_of_delivers hdelivers).trans
            (copyBody_eq_some.mpr ⟨hle, rfl⟩), ?_, nofun⟩
          intro _
          exact ⟨bodySize, fragments, hdelivers, hlen, by rw [hlast]⟩
        · refine ⟨⟨false, frameBody⟩, waitDelivery_of_not ?_, nofun, fun _ => rfl⟩
          intro bodySize fragments h
          exact hdelivers ⟨bodySize, fragments, h⟩

/-- The wait of an attempt is `wait_response_message`, called for `output_trytes`. -/
def Attempt.Waits {Queue : Type} (attempt : Attempt Queue) (consumes : Queue → Bool)
    (arrivals : Queue → List Arrival) (outputTrytes : Vector Int8 2673) : Prop :=
  ∀ queue answer, attempt.waitResponse queue = some answer ↔
    waitResponseMessage (consumes queue) (arrivals queue) 2673 outputTrytes.toList =
      some ⟨true, answer.toList⟩

/-- The answer that `remote_do_pow` stores is the start of the delivered body, as long as
the reply is right. -/
theorem answer_of_reassembles {Queue : Type} {attempt : Attempt Queue} {request : Request}
    {consumes : Queue → Bool} {arrivals : Queue → List Arrival}
    {outputTrytes answer : Vector Int8 2673}
    (hwaits : attempt.Waits consumes arrivals outputTrytes)
    (hright : ∀ queue,
      Reassembles (consumes queue) (arrivals queue) 2673 outputTrytes.toList)
    (hanswer : attempt.answer request = some answer) :
    ∃ queue bodySize fragments, Delivers (arrivals queue) bodySize fragments ∧
      answer.toList = fragments.flatten.take 2673 := by
  unfold Attempt.answer at hanswer
  have ⟨queue, _, hpublish⟩ := Option.bind_eq_some_iff.mp hanswer
  split at hpublish
  · have ⟨response, hresponse, htrue, _⟩ := hright queue
    rw [(hwaits queue answer).mp hpublish] at hresponse
    cases hresponse
    have ⟨bodySize, fragments, hdelivers, _, hbody⟩ := htrue rfl
    rw [List.drop_of_length_le (by rw [Vector.length_toList]), List.append_nil] at hbody
    exact ⟨queue, bodySize, fragments, hdelivers, hbody⟩
  · cases hpublish

def splitReply : List Arrival :=
  [.frame (.method amqpBasicDeliverMethod), .frame (.header 2673),
    .frame (.body (List.replicate 2672 65)), .frame (.body [57])]

theorem not_reassembles_split :
    ¬Reassembles true splitReply 2673 (List.replicate 2673 0) := by
  rintro ⟨response, hresponse, _⟩
  have hnone : waitResponseMessage true splitReply 2673 (List.replicate 2673 0) = none := by
    decide +kernel
  rw [hnone] at hresponse
  cases hresponse

end Dcurl
