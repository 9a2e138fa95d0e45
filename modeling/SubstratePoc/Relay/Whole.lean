import SubstratePoc.Relay.System

namespace SubstratePoc.Relay
open Lib Tunnel Actor

/-- What `HandleReply` makes of a POST that it reads to the end. -/
def replyMsg (rep : Reply) : ReplyMsg :=
  ⟨if (rep.status : ℤ) = 0 then 200 else rep.status, rep.contentType, rep.body⟩

/-- A response of the agent to the request, whole, or the sidecar's report that there is none. -/
def Genuine (answers : List Answer) (r : ReqID) (msg : ReplyMsg) : Prop :=
  (∃ a ∈ answers, a.req.reqID = r ∧
    msg = ⟨if (a.status : ℤ) = 0 then 200 else a.status, a.contentType, a.body⟩) ∨
  ∃ err, msg = ⟨statusBadGateway, textPlain, agentCallFailed ++ err⟩

theorem Genuine.mono {answers : List Answer} {r : ReqID} {msg : ReplyMsg}
    (h : Genuine answers r msg) (more : List Answer) : Genuine (answers ++ more) r msg := by
  rcases h with ⟨a, ha, hx⟩ | h
  · exact .inl ⟨a, List.mem_append_left _ ha, hx⟩
  · exact .inr h

/-- The reply that an action of `deliver` carries. -/
def carries : IAct → Option Reply
  | .deliver rep _ | .replyDo rep _ => some rep
  | _ => none

/-- The agent's response is read to the end, and no reply whose read has failed is the first to
reach a client that waits. -/
def intact (w : System) : System.Event → Bool
  | .ingress _ (.response _ _ body n) _ => body.length ≤ n
  | .callback j => match w.broker.callbacks[j]? with
    | some (.offering r ch _ err) =>
      !err || (w.broker.chans ch).isSome || w.broker.pending r ≠ some ch
    | _ => true
  | _ => true

structure Sound (w : System) : Prop where
  matched : Matched w.broker
  carried : ∀ a ∈ w.pending, ∀ rep, carries a = some rep →
    Genuine w.answered rep.reqID (replyMsg rep)
  posted : ∀ rep ∈ w.posts, Genuine w.answered rep.reqID (replyMsg rep)
  looking : ∀ r msg, .looking r msg false ∈ w.broker.callbacks → Genuine w.answered r msg
  offering : ∀ r ch msg, .offering r ch msg false ∈ w.broker.callbacks → Genuine w.answered r msg
  accepted : ∀ a ∈ w.broker.accepted, a.registered = true → Genuine w.answered a.id a.msg

theorem Sound.start (now : Instant) : Sound (.start now) where
  matched := .create
  carried := by simp [System.start, System.pending]
  posted := by simp [System.start]
  looking := by simp [System.start, Broker.create]
  offering := by simp [System.start, Broker.create]
  accepted := by simp [System.start, Broker.create]

theorem genuine_of_does {i i' : Ingress} {a : IAct} {c : IChoice} {now : Instant}
    {push : List IAct} {eff : List IEffect} (hdo : IDoes i now a c i' push eff) {w : System}
    (ha : ∀ rep, carries a = some rep → Genuine w.answered rep.reqID (replyMsg rep))
    (hc : ∀ status contentType body n, c = .response status contentType body n → body.length ≤ n) :
    (∀ b ∈ push, ∀ rep, carries b = some rep →
      Genuine (eff.foldl System.observe w).answered rep.reqID (replyMsg rep)) ∧
    ∀ rep ∈ (eff.foldl System.observe w).posts,
      rep ∈ w.posts ∨ Genuine (eff.foldl System.observe w).answered rep.reqID (replyMsg rep) := by
  -- the ingress posts nothing but what the agent has answered, if it reads that to the end
  cases hdo with
  | agentFail req text =>
    refine ⟨fun b hb rep hrep => ?_, fun rep hrep => .inl hrep⟩
    cases List.mem_singleton.mp hb
    cases hrep
    exact .inr ⟨text, rfl⟩
  | agent req status contentType body n =>
    refine ⟨fun b hb rep hrep => ?_, fun rep hrep => .inl hrep⟩
    cases List.mem_singleton.mp hb
    cases hrep
    rw [List.take_of_length_le (hc status contentType body n rfl)]
    exact .inl ⟨⟨req, status, contentType, body⟩, List.mem_append_right _ (by simp), rfl, rfl⟩
  | deliver rep attempt hle =>
    refine ⟨fun b hb rep' hrep => ?_, fun rep' hrep => ?_⟩
    · cases List.mem_singleton.mp hb
      exact ha rep' hrep
    · rcases List.mem_append.mp hrep with hrep | hrep
      · exact .inl hrep
      · rw [List.mem_singleton.mp hrep]
        exact .inr (ha rep rfl)
  | replyFail rep attempt text =>
    refine ⟨fun b hb rep' hrep => ?_, fun rep hrep => .inl hrep⟩
    cases List.mem_singleton.mp hb
    exact ha rep' hrep
  | _ => exact ⟨by simp [carries], fun rep hrep => .inl hrep⟩

theorem Sound.callback {cfg : Config} {w : System} {j : ℕ} {b : Broker} (hI : Sound w)
    (hs : w.broker.step cfg (.callback j) = some b) (arrived : List ℕ)
    (hoffer : ∀ r ch msg, w.broker.callbacks[j]? = some (.offering r ch msg true) →
      (w.broker.chans ch).isSome ∨ w.broker.pending r ≠ some ch) :
    Sound { w with broker := b, arrived := arrived } := by
  -- a call of `HandleReply` hands its reply on as it is
  have hM := hI.matched.step hs
  obtain ⟨k, k', b₁, hk, hc, rfl⟩ := step_callback hs
  have hmem := List.mem_of_getElem? hk
  have hlook (hk' : ∀ r msg err, k' ≠ .looking r msg err) (r : ReqID) (msg : ReplyMsg)
      (hm : .looking r msg false ∈ w.broker.callbacks.set j k') : Genuine w.answered r msg :=
    hI.looking r msg ((List.mem_or_eq_of_mem_set hm).resolve_right (hk' r msg false ·.symm))
  cases k with
  | looking r msg err =>
    unfold Relay.callback at hc
    dsimp only at hc
    split at hc
    · cases hc
      refine { hI with matched := hM, looking := hlook (by simp), offering := fun r' ch msg' hm => ?_ }
      exact hI.offering r' ch msg' ((List.mem_or_eq_of_mem_set hm).resolve_right (by simp))
    · cases hc
      refine { hI with matched := hM, looking := hlook (by simp), offering := fun r' ch msg' hm => ?_ }
      rcases List.mem_or_eq_of_mem_set hm with hm | hm
      · exact hI.offering r' ch msg' hm
      · cases hm
        exact hI.looking r msg hmem
  | offering r ch msg err =>
    cases hc
    refine { hI with
      matched := hM
      looking := hlook (by simp)
      offering := fun r' ch' msg' hm => hI.offering r' ch' msg'
        ((List.mem_or_eq_of_mem_set hm).resolve_right (by simp))
      accepted := fun a ha hreg => ?_ }
    dsimp only at ha
    unfold Broker.offer at ha
    split at ha
    · exact hI.accepted a ha hreg
    · rename_i hnone
      rcases List.mem_append.mp ha with ha | ha
      · exact hI.accepted a ha hreg
      · rw [List.mem_singleton.mp ha] at hreg ⊢
        cases err with
        | false => exact hI.offering r ch msg hmem
        | true =>
          rcases hoffer r ch msg hk with hfull | hgone
          · simp [hnone] at hfull
          · exact absurd (of_decide_eq_true hreg) hgone
  | returned => cases hc

theorem Sound.broker {cfg : Config} {w : System} {e : Event} {b : Broker} (hI : Sound w)
    (hs : w.broker.step cfg e = some b) (arrived : List ℕ)
    (hreply : ∀ r status contentType body, e = .reply r status contentType body false →
      Genuine w.answered r ⟨if status = 0 then 200 else status, contentType, body⟩)
    (hoffer : ∀ j r ch msg, e = .callback j →
      w.broker.callbacks[j]? = some (.offering r ch msg true) →
      (w.broker.chans ch).isSome ∨ w.broker.pending r ≠ some ch) :
    Sound { w with broker := b, arrived := arrived } := by
  -- a step of the broker takes up no reply but from a POST
  have hM := hI.matched.step hs
  cases e with
  | request =>
    cases hs
    exact { hI with matched := hM }
  | client h c =>
    obtain ⟨cl, cl', b₁, hcl, ha, rfl⟩ := step_client hs
    obtain ⟨hcb, hacc, -⟩ := ha.table
    refine { hI with matched := hM, looking := ?_, offering := ?_, accepted := ?_ }
    · simpa only [hcb] using hI.looking
    · simpa only [hcb] using hI.offering
    · simpa only [hacc] using hI.accepted
  | reply r status contentType body err =>
    cases hs
    refine { hI with matched := hM, looking := fun r' msg hm => ?_, offering := fun r' ch msg hm => ?_ }
    · rcases List.mem_append.mp hm with hm | hm
      · exact hI.looking r' msg hm
      · cases List.mem_singleton.mp hm
        exact hreply r status contentType body rfl
    · rcases List.mem_append.mp hm with hm | hm
      · exact hI.offering r' ch msg hm
      · cases List.mem_singleton.mp hm
  | callback j => exact hI.callback hs arrived fun r ch msg => hoffer j r ch msg rfl

theorem Sound.ingress {w : System} {c : IChoice} {now : Instant} {a : IAct} {rest push : List IAct}
    {ing : Ingress} {eff : List IEffect} {L R : List (List IAct)} (hI : Sound w)
    (hc : ∀ status contentType body n, c = .response status contentType body n → body.length ≤ n)
    (hts : w.threads = L ++ (a :: rest) :: R) (hdo : IDoes w.ingress now a c ing push eff)
    (read : List ℕ) : Sound (eff.foldl System.observe { w with
      ingress := ing
      threads := L ++ (push ++ rest) :: R
      read := read }) := by
  -- a step of the ingress: what it has to deliver has been answered by the agent
  set w₁ : System := { w with
    ingress := ing
    threads := L ++ (push ++ rest) :: R
    read := read } with hw₁
  obtain ⟨hb, ht, -, -, more, hmore⟩ := w₁.observe_frame eff
  have hmono {r : ReqID} {msg : ReplyMsg} (hg : Genuine w.answered r msg) :
      Genuine (eff.foldl System.observe w₁).answered r msg := hmore ▸ hg.mono more
  have hcarried := hI.carried
  rw [System.pending, hts] at hcarried
  obtain ⟨hpush, hposts⟩ := genuine_of_does hdo (w := w₁) (hcarried a (by simp)) hc
  refine ⟨hb ▸ hI.matched, fun x hx => ?_, fun rep hrep => ?_, ?_, ?_, ?_⟩
  · rw [System.pending, ht] at hx
    rcases mem_flatten_replace (a := a) hx with hx | hx
    · exact hpush x hx
    · exact fun rep hrep => hmono (hcarried x hx rep hrep)
  · rcases hposts rep hrep with hrep | hg
    · exact hmono (hI.posted rep hrep)
    · exact hg
  · rw [hb]
    exact fun r msg hm => hmono (hI.looking r msg hm)
  · rw [hb]
    exact fun r ch msg hm => hmono (hI.offering r ch msg hm)
  · rw [hb]
    exact fun x hx hreg => hmono (hI.accepted x hx hreg)

theorem Sound.step {cfg : Config} {w w' : System} {e : System.Event} (hI : Sound w)
    (he : intact w e = true) (h : w.step cfg e = some w') : Sound w' := by
  cases System.step_steps h with
  | request b hs => exact hI.broker hs _ (by simp) (by simp)
  | client m c b hs => exact hI.broker hs _ (by simp) (by simp)
  | callback j b hs =>
    refine hI.broker hs _ (by simp) fun j' r ch msg hj hk => ?_
    cases hj
    simpa [intact, hk] using he
  | deliver k req hk hnew =>
    refine { hI with carried := fun a ha => ?_ }
    rw [System.pending, List.flatten_append, List.mem_append] at ha
    rcases ha with ha | ha
    · exact hI.carried a ha
    · cases List.mem_singleton.mp ha
      simp [carries]
  | ingress i c now a rest push k ing eff L R hts hi hk hdo =>
    refine hI.ingress ?_ hts hdo _
    rintro status contentType body n rfl
    simpa [intact] using he
  | arrive k n rep b hk hs =>
    refine hI.broker hs _ (fun r status contentType body he => ?_) (by simp)
    simp only [Event.reply.injEq, decide_eq_false_iff_not, not_lt] at he
    obtain ⟨rfl, rfl, rfl, rfl, hn⟩ := he
    rw [List.take_of_length_le hn]
    exact hI.posted rep (List.mem_of_getElem? hk)

/-- The client gets the agent's whole reply or an error, if every read on the way goes to its
end. -/
theorem whole_reply_of_intact {cfg : Config} {now : Instant} {es : List System.Event} {w : System}
    (hes : Along (System.step cfg) (fun w e => intact w e = true) (.start now) es)
    (hrun : run (System.step cfg) (.start now) es = some w) (h : ℕ) (msg : ReplyMsg)
    (hmsg : .reply msg ∈ w.broker.responses h) : ∃ r, (r, h) ∈ w.broker.ids ∧
      ((∃ a ∈ w.answered, a.req.reqID = r ∧
        msg = ⟨if (a.status : ℤ) = 0 then 200 else a.status, a.contentType, a.body⟩) ∨
      ∃ err, msg = ⟨statusBadGateway, textPlain, agentCallFailed ++ err⟩) := by
  have hI : Sound w := run_invariant (fun _ _ _ hI he hs => hI.step he hs) (.start now) hes hrun
  obtain ⟨r, a, hr, hfirst, rfl, hreg⟩ := (hI.matched.held h).answered.own msg hmsg
  have hid : a.id = r := by simpa using List.find?_some hfirst
  refine ⟨r, hr, ?_⟩
  rw [← hid]
  exact hI.accepted a (List.mem_of_find?_eq_some hfirst) hreg

def epoch : Instant := ⟨0, 0⟩

/-- A client's request up to the first POST of the agent's two bytes, of which `process` has read
the first `n`. -/
def answering (n : ℕ) : List System.Event :=
  [.request, .client 0 (.body [1]), .client 0 (.id [7]), .client 0 .ok, .deliver 0,
    .ingress 0 .ok epoch, .ingress 0 .ok epoch, .client 0 (.status 202), .ingress 0 .ok epoch,
    .ingress 0 .ok epoch, .ingress 0 (.response 200 [] [3, 4] n) epoch, .ingress 0 .ok epoch]

def postingAgain : List System.Event :=
  -- `deliver` makes its second POST
  [.ingress 0 (.fail []) epoch, .ingress 0 .ok epoch]

def arrivedAgain : List System.Event :=
  -- the first POST is lost, the second arrives and answers the client
  answering 2 ++ postingAgain ++ [.arrive 1 2, .callback 0, .callback 0, .client 0 .reply]

theorem whole_reply_arrivedAgain : ∃ w, run (System.step demo) (.start epoch) arrivedAgain = some w ∧
    .reply ⟨200, [], [3, 4]⟩ ∈ w.broker.responses 0 ∧ ∃ r, (r, 0) ∈ w.broker.ids ∧
      ((∃ a ∈ w.answered, a.req.reqID = r ∧ (⟨200, [], [3, 4]⟩ : ReplyMsg) =
        ⟨if (a.status : ℤ) = 0 then 200 else a.status, a.contentType, a.body⟩) ∨
      ∃ err, (⟨200, [], [3, 4]⟩ : ReplyMsg) =
        ⟨statusBadGateway, textPlain, agentCallFailed ++ err⟩) := by
  have hrun := (rfl : run (System.step demo) (.start epoch) arrivedAgain = some _)
  have hes : Along (System.step demo) (fun w e => intact w e = true) (.start epoch) arrivedAgain := by
    decide
  exact ⟨_, hrun, by decide, whole_reply_of_intact hes hrun 0 ⟨200, [], [3, 4]⟩ (by decide)⟩

/-- Without the condition: the first POST is cut after a byte, accepted as the reply, and the
second comes too late; or `process` itself has read only the first byte. -/
theorem half_reply_of_cut :
    (∃ w, run (System.step demo) (.start epoch) (answering 2 ++ [.arrive 0 1, .callback 0,
        .callback 0] ++ postingAgain ++ [.arrive 1 2, .callback 1, .callback 1, .client 0 .reply]) =
        some w ∧ w.broker.responses 0 = [.reply ⟨200, [], [3]⟩] ∧
        w.answered.map (fun a => (a.status, a.body)) = [(200, [3, 4])]) ∧
    ∃ w, run (System.step demo) (.start epoch) (answering 1 ++ [.arrive 0 1, .callback 0,
        .callback 0, .client 0 .reply]) = some w ∧
        w.broker.responses 0 = [.reply ⟨200, [], [3]⟩] ∧
        w.answered.map (fun a => (a.status, a.body)) = [(200, [3, 4])] :=
  ⟨⟨_, rfl, by decide, by decide⟩, ⟨_, rfl, by decide, by decide⟩⟩

end SubstratePoc.Relay
