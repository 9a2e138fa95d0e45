import SubstratePoc.Pair.Delivery
import SubstratePoc.Pair.Trim

namespace SubstratePoc.Pair
open Lib Tunnel Broker Sidecar

/-- A frame on which the broker makes a session if the key is absent. -/
def opens : Msg → Bool
  | .opn _ _ => true
  | .attach _ offset _ => offset == 0
  | _ => false

def SAct.opens : SAct → Bool
  | .openSession => true
  | .send m | .write _ m => Pair.opens m
  | _ => false

def SAct.attaches : SAct → Bool
  | .attachFrame _ => true
  | _ => false

def BAct.opens : BAct → Bool
  | .handleFrame _ m => Pair.opens m
  | .openSession _ _ => true
  | .attachSession _ offset _ => offset == 0
  | _ => false

/-- Nothing that opens the session is on its way to the broker, and the sidecar will send nothing
of the kind: it has delivered a byte, or has dropped the session. -/
structure Settled (w : System) : Prop where
  side : ∀ a ∈ w.tunnel ++ w.proxy, a.opens = false
  resumes : 0 < w.core.cs.downDelivered ∨
    w.core.listed = false ∧ ∀ a ∈ w.tunnel ++ w.proxy, a.attaches = false
  up : ∀ k < w.core.conns, ∀ m ∈ (w.core.links k).up, opens m = false
  broker : ∀ b ∈ w.pending, b.opens = false

instance (w : System) : Decidable (Settled w) :=
  decidable_of_iff ((∀ a ∈ w.tunnel ++ w.proxy, a.opens = false) ∧
      (0 < w.core.cs.downDelivered ∨
        w.core.listed = false ∧ ∀ a ∈ w.tunnel ++ w.proxy, a.attaches = false) ∧
      (∀ k < w.core.conns, ∀ m ∈ (w.core.links k).up, opens m = false) ∧
      ∀ b ∈ w.pending, b.opens = false)
    ⟨fun h => ⟨h.1, h.2.1, h.2.2.1, h.2.2.2⟩, fun h => ⟨h.side, h.resumes, h.up, h.broker⟩⟩

/-- A session that has written to its destination is destroyed only when nothing can open it
again. -/
def sparing (w : System) : Event → Bool
  | .broker i _ => match w.next i with
    | some (.act o .destroy) =>
      (w.core.objs o).s.dead || decide ((w.core.objs o).dest = []) || decide (Settled w)
    | _ => true
  | _ => true

/-! ## Settled stays settled -/

theorem dispatch_opens (m : Msg) : ∀ b ∈ dispatch m, b.opens = false ∧ b.attaches = false := by
  intro b hb
  cases m with
  | opn | attach => cases hb
  | _ =>
    rw [List.mem_singleton.mp hb]
    exact ⟨rfl, rfl⟩

theorem SDoes.opens {w w' : Core} {a : SAct} {push : List SAct} {spawn : List (List BAct)}
    (h : SDoes w a w' push spawn) (ha : a.opens = false)
    (hr : 0 < w.cs.downDelivered ∨ a.attaches = false) :
    (∀ b ∈ push, b.opens = false) ∧
      (w.listed = false → w'.listed = false ∧ ∀ b ∈ push, b.attaches = false) := by
  have hall : ∀ {l : List SAct}, l.all (fun b => !b.opens && !b.attaches) = true →
      (∀ b ∈ l, b.opens = false) ∧ (∀ b ∈ l, b.attaches = false) := by
    intro l hl
    simp only [List.all_eq_true, Bool.and_eq_true, Bool.not_eq_true'] at hl
    exact ⟨fun b hb => (hl b hb).1, fun b hb => (hl b hb).2⟩
  have hsame : ∀ {l : List SAct}, l.all (fun b => !b.opens && !b.attaches) = true →
      (∀ b ∈ l, b.opens = false) ∧
        (w.listed = false → w.listed = false ∧ ∀ b ∈ l, b.attaches = false) :=
    fun hl => ⟨(hall hl).1, fun h => ⟨h, (hall hl).2⟩⟩
  cases h with
  | connect =>
    refine ⟨?_, fun hl => ⟨hl, ?_⟩⟩
    · split_ifs <;> simp [SAct.opens]
    · rw [if_neg (by simp [hl])]
      simp [SAct.attaches]
  | attachFrame k =>
    have hpos : 0 < w.cs.downDelivered := hr.resolve_right (by simp [SAct.attaches])
    refine ⟨?_, fun hl => ⟨hl, by simp [SAct.attaches]⟩⟩
    simp [SAct.opens, ClientSession.attachFrame, Pair.opens, hpos.ne']
  | readFrame k m down hd =>
    have hdisp : ∀ b ∈ (if w.listed then dispatch m else []) ++ [.readFrame k],
        b.opens = false ∧ b.attaches = false := by
      intro b hb
      rw [List.mem_append, List.mem_singleton] at hb
      rcases hb with hb | rfl
      · split_ifs at hb
        · exact dispatch_opens m b hb
        · cases hb
      · exact ⟨rfl, rfl⟩
    exact ⟨fun b hb => (hdisp b hb).1, fun hl => ⟨hl, fun b hb => (hdisp b hb).2⟩⟩
  | onAttachOK offset =>
    refine ⟨fun b hb => ?_, fun hl => ⟨hl, fun b hb => ?_⟩⟩
    · obtain ⟨m, hm, rfl⟩ := List.mem_map.mp hb
      obtain ⟨p, rfl⟩ := ClientSession.eq_data_of_mem_onAttachOK hm
      rfl
    · obtain ⟨m, hm, rfl⟩ := List.mem_map.mp hb
      rfl
  | removeSession => exact ⟨by simp, fun _ => ⟨rfl, by simp⟩⟩
  | sendSome m k hc =>
    refine ⟨fun b hb => ?_, fun hl => ⟨hl, by simp [SAct.attaches]⟩⟩
    rw [List.mem_singleton.mp hb]
    exact ha
  | writeOk k m =>
    rw [Core.toBroker_eq]
    exact hsame rfl
  | openSession => cases ha
  | writeUpDead p err push hp =>
    refine ⟨fun b hb => ?_, fun hl => ⟨hl, fun b hb => ?_⟩⟩ <;>
    · obtain ⟨reason, rfl⟩ := hp b hb
      rfl
  | writeUpDone err => cases err <;> exact hsame rfl
  | _ => exact hsame rfl

theorem SDoes.fresh {w w' : Core} {a : SAct} {push : List SAct} {spawn : List (List BAct)}
    (h : SDoes w a w' push spawn) {k : ConnId} (h1 : w.conns ≤ k) (h2 : k < w'.conns) :
    (w'.links k).up = [] := by
  cases h with
  | connect =>
    obtain rfl : k = w.conns := Nat.le_antisymm (Nat.le_of_lt_succ h2) h1
    simp [Core.setLink, newLink]
  | writeOk j m =>
    rw [Core.toBroker_eq] at h2
    exact absurd h1 (Nat.not_le.mpr h2)
  | _ => exact absurd h1 (Nat.not_le.mpr h2)

theorem handle_opens {k : ConnId} {m : Msg} (hm : opens m = false) (s : Option ℕ) :
    ∀ x ∈ handle k m s, x.opens = false := by
  intro x hx
  cases m with
  | opn => cases hm
  | attach sid offset target =>
    rw [List.mem_singleton.mp hx]
    exact hm
  | attachOK => cases hx
  | data | ack | close =>
    cases s with
    | none => cases hx
    | some o =>
      rw [List.mem_singleton.mp hx]
      rfl

theorem BDoes.opens {cfg : Config} {w w' : Core} {a : BAct} {push : List BAct}
    {spawn : List (List BAct)} (h : BDoes cfg w a w' push spawn) (ha : a.opens = false)
    (hup : ∀ k m, a = .readFrame k → m ∈ (w.links k).up → Pair.opens m = false) :
    ∀ x ∈ push ++ spawn.flatten, x.opens = false := by
  cases h with
  | readFrame k m up hm =>
    have hmem := hup k m rfl (hm ▸ List.mem_cons_self ..)
    intro x hx
    simp only [List.flatten_nil, List.append_nil, List.mem_cons, List.not_mem_nil, or_false] at hx
    rcases hx with rfl | rfl
    · exact hmem
    · rfl
  | handleFrame k m =>
    rw [List.flatten_nil, List.append_nil]
    exact handle_opens ha _
  | openRejected | openExists | openSession => cases ha
  | attachAgain k offset target ho =>
    subst ho
    cases ha
  | act o b c r hr =>
    intro x hx
    rw [List.flatten_nil, List.append_nil] at hx
    obtain ⟨b, -, rfl⟩ := List.mem_map.mp hx
    rfl
  | _ => exact forall_false_of_all rfl

theorem BDoes.readFrame_mem {cfg : Config} {w w' : Core} {a : BAct} {push : List BAct}
    {spawn : List (List BAct)} (h : BDoes cfg w a w' push spawn) {k : ConnId}
    (hk : .readFrame k ∈ push ++ spawn.flatten) : a = .readFrame k := by
  cases h with
  | readFrame k m up hm => simp_all
  | handleFrame j m =>
    rw [List.flatten_nil, List.append_nil] at hk
    cases hs : w.sessions <;> cases m <;> simp [handle, hs] at hk
  | act o b c r hr => simp at hk
  | _ => simp at hk

section Step
variable {cfg : Config} {w w' : System}

theorem Settled.of_sidecar (hS : Settled w) {a : SAct} {push : List SAct}
    {spawn : List (List BAct)} (h : SDoes w.core a w'.core push spawn)
    (ha : a ∈ w.tunnel ++ w.proxy)
    (hside : ∀ b ∈ w'.tunnel ++ w'.proxy, b ∈ w.tunnel ++ w.proxy ∨ b ∈ push)
    (hp : w'.pending = w.pending ++ spawn.flatten) : Settled w' := by
  have hf := h.frame
  obtain ⟨hpush, hlisted⟩ := h.opens (hS.side a ha) (hS.resumes.imp id fun h => h.2 a ha)
  refine ⟨?_, ?_, ?_, ?_⟩
  · exact fun b hb => (hside b hb).elim (hS.side b) (hpush b)
  · refine hS.resumes.imp (·.trans_le hf.le_delivered) fun hl => ?_
    obtain ⟨hl', hatt⟩ := hlisted hl.1
    exact ⟨hl', fun b hb => (hside b hb).elim (hl.2 b) (hatt b)⟩
  · intro k hk m hm
    by_cases hlt : k < w.core.conns
    · rcases (hf.links k).up m hm with hm | rfl
      · exact hS.up k hlt m hm
      · exact hS.side _ ha
    · rw [h.fresh (Nat.le_of_not_lt hlt) hk] at hm
      cases hm
  · intro b hb
    rw [hp, List.mem_append] at hb
    rcases hb with hb | hb
    · exact hS.broker b hb
    · obtain ⟨k, rfl, -⟩ := hf.spawn b hb
      rfl

theorem Settled.of_broker (hS : Settled w) (hcs : w'.core.cs = w.core.cs)
    (hlisted : w'.core.listed = w.core.listed) (hconns : w'.core.conns = w.core.conns)
    (htunnel : w'.tunnel = w.tunnel) (hproxy : w'.proxy = w.proxy)
    (hup : ∀ k, ∀ m ∈ (w'.core.links k).up, m ∈ (w.core.links k).up)
    (hbroker : ∀ b ∈ w'.pending, b ∈ w.pending ∨ b.opens = false) : Settled w' := by
  refine ⟨?_, ?_, ?_, ?_⟩
  · rw [htunnel, hproxy]
    exact hS.side
  · rw [hcs, hlisted, htunnel, hproxy]
    exact hS.resumes
  · intro k hk m hm
    exact hS.up k (hconns ▸ hk) m (hup k m hm)
  · exact fun b hb => (hbroker b hb).elim (hS.broker b) id

theorem BDoes.pending {a : BAct} {X Y push : List BAct} {spawn : List (List BAct)}
    (h : BDoes cfg w.core a w'.core push spawn)
    (hI : ∀ k, .readFrame k ∈ w.pending → k < w.core.conns)
    (hconns : w'.core.conns = w.core.conns) (hp : w.pending = X ++ a :: Y)
    (hp' : w'.pending = X ++ (push ++ Y) ++ spawn.flatten) :
    (∀ k, .readFrame k ∈ w'.pending → k < w'.core.conns) ∧
      (Settled w → ∀ b ∈ w'.pending, b ∈ w.pending ∨ b.opens = false) := by
  have hnew := mem_pending_of_replace hp hp'
  have ha : a ∈ w.pending := by simp [hp]
  constructor
  · intro k hk
    rw [hconns]
    rcases hnew _ hk with hk | hk
    · exact hI k hk
    · have := h.readFrame_mem hk
      exact hI k (this ▸ ha)
  · intro hS b hb
    refine (hnew b hb).imp id fun hb => h.opens (hS.broker a ha) ?_ b hb
    intro k m hk hm
    exact hS.up k (hI k (hk ▸ ha)) m hm

theorem Settled.step {e : Event} (hS : Settled w)
    (hI : ∀ k, .readFrame k ∈ w.pending → k < w.core.conns) (h : step cfg w e = some w') :
    Settled w' := by
  cases step_moves h with
  | sidecar _ a push spawn hs hrun hp =>
    obtain ⟨ha, hside⟩ := side_of_runs hrun
    exact hS.of_sidecar hs ha hside hp
  | quiet _ hq =>
    obtain ⟨ws, hp, hws⟩ := hq.pending
    refine hS.of_broker hq.cs hq.listed hq.conns hq.tunnel hq.proxy ?_ fun b hb => ?_
    · exact fun k m hm => ((hq.links k).up m hm).elim id False.elim
    · rw [hp, List.mem_append] at hb
      refine hb.imp id fun hb => ?_
      obtain ⟨o, -, rfl⟩ := hws b hb
      rfl
  | broker i c a X Y push spawn hn hb ht hproxy hp hp' =>
    have hpending := fun hc => (hb.pending hI hc hp hp').2 hS
    rcases hb.cases_session with ⟨k, target, rfl, -⟩ | ⟨o, b, c, r, rfl, hr, hcore, rfl, rfl⟩ | hf
    · cases hS.broker (.openSession k target) (by simp [hp])
    · have haff := w.core.objAct_affects o b c r
      rw [← hcore] at haff
      refine hS.of_broker haff.cs haff.listed haff.conns ht hproxy ?_ (hpending haff.conns)
      exact fun k m hm => ((haff.links k).up m hm).elim id False.elim
    · refine hS.of_broker hf.cs hf.listed hf.conns ht hproxy ?_ (hpending hf.conns)
      exact fun k m hm => ((hf.links k).up m hm).elim id False.elim

/-- Of the sessions made for the key, only the latest has written anything, and if it is dead
nothing will open the session again. -/
structure Once (w : System) : Prop where
  accepted : ∀ k, .readFrame k ∈ w.pending → k < w.core.conns
  spent : ∀ o, o + 1 < w.core.created → (w.core.objs o).dest = []
  settled : ∀ o, o + 1 = w.core.created → (w.core.objs o).s.dead = true →
    (w.core.objs o).dest ≠ [] → Settled w

theorem once_start (cfg : Config) : Once (start cfg) where
  accepted k h := by cases h
  spent o h := absurd h (Nat.not_lt_zero _)
  settled o h := absurd h (Nat.succ_ne_zero _)

theorem Once.of_quiet (hI : Once w) (hcreated : w'.core.created = w.core.created)
    (hdest : ∀ o, (w'.core.objs o).dest = (w.core.objs o).dest)
    (hdead : ∀ o, (w'.core.objs o).s.dead = (w.core.objs o).s.dead)
    (haccepted : ∀ k, .readFrame k ∈ w'.pending → k < w'.core.conns)
    (hsettled : Settled w → Settled w') : Once w' where
  accepted := haccepted
  spent o h := by
    rw [hdest]
    exact hI.spent o (hcreated ▸ h)
  settled o h hd hne := by
    rw [hcreated] at h
    rw [hdead] at hd
    rw [hdest] at hne
    exact hsettled (hI.settled o h hd hne)

theorem Once.of_sidecar (hI : Once w) {a : SAct} {push : List SAct} {spawn : List (List BAct)}
    (h : SDoes w.core a w'.core push spawn) (hsettled : Settled w → Settled w')
    (hp : w'.pending = w.pending ++ spawn.flatten) : Once w' := by
  have hf := h.frame
  refine hI.of_quiet hf.created (fun o => by rw [hf.objs]) (fun o => by rw [hf.objs]) ?_ hsettled
  intro k hk
  rw [hp, List.mem_append] at hk
  rcases hk with hk | hk
  · exact (hI.accepted k hk).trans_le hf.le_conns
  · obtain ⟨j, hj, hlt⟩ := hf.spawn _ hk
    rw [BAct.readFrame.inj hj]
    exact hlt

theorem Once.of_openSession (hI : Once w) (hK : Keyed w) {k : ConnId} {target : Bytes} {ob : Obj}
    (hs : w.core.sessions = none) (hmem : .openSession k target ∈ w.pending)
    (hob : ob.s.dead = false) (hcreated : w'.core.created = w.core.created + 1)
    (hobjs : w'.core.objs = Function.update w.core.objs w.core.created ob)
    (haccepted : ∀ k, .readFrame k ∈ w'.pending → k < w'.core.conns) : Once w' := by
  -- a session is made: the request that asks for it was not settled
  refine ⟨haccepted, ?_, ?_⟩
  · intro o ho
    rw [hcreated] at ho
    have hlt : o < w.core.created := Nat.lt_of_succ_lt_succ ho
    rw [hobjs, Function.update_of_ne hlt.ne]
    -- had the latest session written, nothing that opens another would be pending
    by_cases hlast : o + 1 = w.core.created
    · by_contra hne
      have hS := hI.settled o hlast (hK.absent hs o hlt) hne
      cases hS.broker _ hmem
    · exact hI.spent o (by omega)
  · intro o ho hd
    rw [hcreated] at ho
    obtain rfl : o = w.core.created := Nat.succ.inj ho
    rw [hobjs, Function.update_self, hob] at hd
    cases hd

theorem Once.of_act (hI : Once w) (hK : Keyed w) {o : ℕ} {a : Act} {c : Choice} {r : Result}
    (h : Does (w.core.objs o).s a c r) (hcreated : w'.core.created = w.core.created)
    (hobjs : w'.core.objs = Function.update w.core.objs o ((w.core.objs o).after a c r))
    (haccepted : ∀ k, .readFrame k ∈ w'.pending → k < w'.core.conns)
    (hsettled : Settled w → Settled w')
    (hsparing : a = .destroy →
      (w.core.objs o).s.dead = true ∨ (w.core.objs o).dest = [] ∨ Settled w) : Once w' := by
  have hother : ∀ j ≠ o, w'.core.objs j = w.core.objs j := by
    intro j hj
    rw [hobjs]
    exact Function.update_of_ne hj _ _
  have hself : w'.core.objs o = (w.core.objs o).after a c r := by rw [hobjs, Function.update_self]
  -- a dead session writes nothing more
  have hdest : (w.core.objs o).s.dead = true → (w'.core.objs o).dest = (w.core.objs o).dest := by
    intro hd
    rw [hself, Obj.after, h.bytes_of_dead hd, List.append_nil]
  refine ⟨haccepted, ?_, ?_⟩
  · intro j hj
    rw [hcreated] at hj
    by_cases hjo : j = o
    · subst hjo
      rw [hdest (hK.earlier j hj)]
      exact hI.spent j hj
    · rw [hother j hjo]
      exact hI.spent j hj
  · intro j hj hd hne
    rw [hcreated] at hj
    apply hsettled
    by_cases hjo : j = o
    · subst hjo
      by_cases hd0 : (w.core.objs j).s.dead = true
      · rw [hdest hd0] at hne
        exact hI.settled j hj hd0 hne
      · have ha : a = .destroy := by
          by_contra ha
          rw [hself, Obj.after, (h.dead_eq fun h => absurd h ha).1] at hd
          exact hd0 hd
        subst ha
        cases h with
        | destroyAgain _ hd' => exact absurd hd' hd0
        | destroy =>
          rw [hself] at hne
          simp only [Obj.after, List.flatMap_nil, List.append_nil] at hne
          exact (hsparing rfl).resolve_left hd0 |>.resolve_left hne
    · rw [hother j hjo] at hd hne
      exact hI.settled j hj hd hne

theorem Once.step {e : Event} (hI : Once w) (hK : Keyed w) (hsp : sparing w e = true)
    (h : step cfg w e = some w') : Once w' := by
  have hsettled : Settled w → Settled w' := fun hS => hS.step hI.accepted h
  cases step_moves h with
  | sidecar _ a push spawn hs hrun hp => exact hI.of_sidecar hs hsettled hp
  | quiet _ hq =>
    obtain ⟨ws, hp, hws⟩ := hq.pending
    have hobjs : ∀ o, (w'.core.objs o).dest = (w.core.objs o).dest ∧
        (w'.core.objs o).s.dead = (w.core.objs o).s.dead := by
      intro o
      obtain ⟨b, hb⟩ := hq.objs o
      rw [hb]
      exact ⟨rfl, rfl⟩
    refine hI.of_quiet hq.created (fun o => (hobjs o).1) (fun o => (hobjs o).2) ?_ hsettled
    intro k hk
    rw [hp, List.mem_append] at hk
    rw [hq.conns]
    refine hI.accepted k (hk.resolve_right fun hk => ?_)
    obtain ⟨o, -, ho⟩ := hws _ hk
    cases ho
  | broker i c a X Y push spawn hn hb ht hproxy hp hp' =>
    have ha : a ∈ w.pending := by simp [hp]
    have haccepted := fun hc => (hb.pending hI.accepted hc hp hp').1
    rcases hb.cases_session with ⟨k, target, rfl, hs, hcore, rfl, rfl⟩ |
      ⟨o, b, c, r, rfl, hr, hcore, rfl, rfl⟩ | hf
    · exact hI.of_openSession hK hs ha rfl (by rw [hcore]) (by rw [hcore])
        (haccepted (by rw [hcore]))
    · have haff := w.core.objAct_affects o b c r
      rw [← hcore] at haff
      refine hI.of_act hK hr haff.created haff.objs (haccepted haff.conns) hsettled ?_
      rintro rfl
      simpa [sparing, hn, or_assoc] using hsp
    · exact hI.of_quiet hf.created (fun o => by rw [hf.objs]) (fun o => by rw [hf.objs])
        (haccepted hf.conns) hsettled

end Step

/-- A key whose session is recreated has had no byte written to a destination, and then the sidecar
has trimmed nothing that ATTACH_OK asks for. -/
theorem dest_eq_nil_of_sparing {cfg : Config} {es : List Event} {w : System}
    (hrun : run (step cfg) (start cfg) es = some w)
    (hsparing : Along (step cfg) (fun w e => sparing w e = true) (start cfg) es) :
    (∀ o, o + 1 < w.core.created → (w.core.objs o).dest = []) ∧
      ((∀ o < w.core.created, (w.core.objs o).dest = []) → w.core.cs.upBuf.base = 0) := by
  have hI : Once w ∧ Keyed w := by
    refine run_invariant (I := fun w => Once w ∧ Keyed w) ?_
      ⟨once_start cfg, keyed_start cfg⟩ hsparing hrun
    intro w e w' hI hsp hs
    exact ⟨hI.1.step hI.2 hsp hs, hI.2.step hs⟩
  exact ⟨hI.1.spent, fun hw => (untrimmed_run hrun hw).base⟩

def redial : List Event := List.flatten
  -- the dial fails, the tunnel is cut before the CLOSE arrives, and the sidecar attaches again
  [[.tunnel .ok, .proxy .ok, .proxy .ok, .proxy .ok], brokerSteps 0 6, [.broker 1 (.fail 0 [])],
    brokerSteps 1 4, [.cut 0 0 0, .tunnel (.fail 0 [])], tunnelSteps 5, brokerSteps 2 4]

theorem dest_eq_nil_redial : ∃ w, run (step small) (start small) redial = some w ∧
    w.core.created = 2 ∧ (w.core.objs 0).dest = [] ∧ w.core.cs.upBuf.base = 0 := by
  have hrun := (rfl : run (step small) (start small) redial = some _)
  obtain ⟨hdest, hbase⟩ := dest_eq_nil_of_sparing hrun (by decide)
  exact ⟨_, hrun, rfl, hdest 0 (by decide), hbase (by decide)⟩

def resubmit : List Event := List.flatten
  -- the destination closes without an answer after the agent has closed its half, which
  -- destroys the session; the sidecar has delivered nothing and attaches at offset zero
  [[.tunnel .ok, .proxy .ok, .proxy .ok, .proxy .ok], brokerSteps 0 6, brokerSteps 1 2,
    [.proxy (.read [1] (some .eof))], List.replicate 7 (.proxy .ok), brokerSteps 0 12,
    [.broker 1 (.read [] (some .eof))], brokerSteps 1 7, [.cut 0 0 0, .tunnel (.fail 0 [])],
    tunnelSteps 5, brokerSteps 2 11, brokerSteps 3 2, tunnelSteps 4, brokerSteps 2 4]

/-- Two destination connections get the same request. -/
theorem not_dest_eq_nil_resubmit : ∃ w, run (step small) (start small) resubmit = some w ∧
    0 + 1 < w.core.created ∧ (w.core.objs 0).dest = [1] ∧ (w.core.objs 1).dest = [1] := by
  refine ⟨_, rfl, ?_, ?_, ?_⟩ <;> decide

end SubstratePoc.Pair
