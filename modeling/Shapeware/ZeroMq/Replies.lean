import Shapeware.ZeroMq.Pair

/-!
# A reply answers the last request

Two things could go wrong. A late reply could be taken for the answer to a later request: but a REQ
socket has at most one request under way, and a new socket receives nothing sent for an old one. And
REP could send what was left for an earlier request: but it forgets what was left when it hands a
request to the application, and `sendMessage` cannot leave anything before that.
-/

namespace Shapeware.ZeroMq

/-- The message was left when the last request handed to the REP application was this one. -/
def Answers (history : List Milestone) (num : Nat) (msg : StdString) : Prop :=
  ∃ earlier request called, earlier ++ [.stored msg] <+: history ∧
    (delivered earlier).getLast? = some (num, request, called) ∧
    (requested earlier)[num]? = some request

/-- The message was left when the last request handed to the REP application was the one that REQ
has sent last; `called` tells whether REP had a handler to hand it to. -/
def AnswersLast (history : List Milestone) (msg : StdString) (called : Bool) : Prop :=
  ∃ earlier num request, earlier ++ [.stored msg] <+: history ∧
    (delivered earlier).getLast? = some (num, request, called) ∧
    num + 1 = (requested history).length ∧ (requested history).getLast? = some request

theorem requested_append (history later : List Milestone) :
    requested (history ++ later) = requested history ++ requested later := List.filterMap_append

theorem delivered_append (history later : List Milestone) :
    delivered (history ++ later) = delivered history ++ delivered later := List.filterMap_append

theorem delivered_append_of_nil {history later : List Milestone} (h : delivered later = []) :
    delivered (history ++ later) = delivered history := by
  rw [delivered_append, h, List.append_nil]

theorem requested_getElem? {earlier history : List Milestone} {num : Nat} {request : StdString}
    (hbefore : earlier <+: history) (h : (requested earlier)[num]? = some request) :
    (requested history)[num]? = some request := by
  obtain ⟨later, rfl⟩ := hbefore
  obtain ⟨hlt, -⟩ := List.getElem?_eq_some_iff.mp h
  rw [requested_append, List.getElem?_append_left hlt, h]

theorem Answers.append {history : List Milestone} {num : Nat} {msg : StdString}
    (h : Answers history num msg) (later : List Milestone) :
    Answers (history ++ later) num msg := by
  obtain ⟨earlier, request, called, hbefore, hlast⟩ := h
  exact ⟨earlier, request, called, hbefore.trans (List.prefix_append _ _), hlast⟩

theorem Answers.last {history : List Milestone} {num : Nat} {msg : StdString}
    (h : Answers history num msg) (hnum : num + 1 = (requested history).length) :
    ∃ called, AnswersLast history msg called := by
  obtain ⟨earlier, request, called, hbefore, hlast, hrequest⟩ := h
  refine ⟨called, earlier, num, request, hbefore, hlast, hnum, ?_⟩
  rw [List.getLast?_eq_getElem?, ← hnum, Nat.add_sub_cancel]
  exact requested_getElem? ((List.prefix_append _ _).trans hbefore) hrequest

/-! ### At most one request under way -/

/-- The letters, without what is written in them. -/
def tags (letters : List Letter) : Multiset (Nat × Nat) := letters.map fun l => (l.num, l.socket)

@[simp]
theorem tags_nil : tags [] = 0 := rfl

@[simp]
theorem tags_singleton (l : Letter) : tags [l] = {(l.num, l.socket)} := rfl

@[simp]
theorem tags_append (letters more : List Letter) :
    tags (letters ++ more) = tags letters + tags more := by
  simp [tags]

theorem tags_erase {letters : List Letter} {l : Letter} (hl : l ∈ letters) :
    tags letters = tags (letters.erase l) + tags [l] := by
  have hperm : letters.Perm (letters.erase l ++ [l]) :=
    (List.perm_cons_erase hl).trans (List.perm_append_singleton _ _).symm
  rw [← tags_append]
  exact Multiset.coe_eq_coe.mpr (hperm.map _)

theorem tags_erase_le (letters : List Letter) (l : Letter) : tags (letters.erase l) ≤ tags letters :=
  Multiset.coe_le.mpr (List.erase_sublist.map _).subperm

namespace Pair

variable {T U : Type} {s s' : Pair T U}

/-- The requests under way, those that REP works on and those that are answered included. -/
def inFlight (s : Pair T U) : Multiset (Nat × Nat) :=
  tags s.requests + tags s.current.toList + tags s.replies

/-- REQ's current socket awaits at most the reply to the last request, and none when it is its turn
to send. -/
structure Awaiting (s : Pair T U) : Prop where
  socket_le : ∀ x ∈ s.inFlight, x.2 ≤ s.req.worker.socket
  last : ∀ x ∈ s.inFlight, x.2 = s.req.worker.socket → x.1 + 1 = (requested s.history).length
  one : s.inFlight.countP (fun x => x.2 = s.req.worker.socket) ≤ 1
  none_of_due : s.req.worker.due = some .send →
    s.inFlight.countP (fun x => x.2 = s.req.worker.socket) = 0

theorem Awaiting.onward (h : s.Awaiting) (hle : s'.inFlight ≤ s.inFlight)
    (hrequested : requested s'.history = requested s.history)
    (honward : s.req.worker.Onward s'.req.worker) : s'.Awaiting := by
  obtain ⟨hsocket, hdue⟩ | hsocket := honward.socket
  · have hcount := Multiset.countP_le_of_le (fun x => x.2 = s.req.worker.socket) hle
    refine ⟨fun x hx => ?_, fun x hx hcur => ?_, ?_, fun hsend => ?_⟩
    · exact hsocket ▸ h.socket_le x (Multiset.mem_of_le hle hx)
    · exact hrequested ▸ h.last x (Multiset.mem_of_le hle hx) (hsocket ▸ hcur)
    · rw [hsocket]
      exact hcount.trans h.one
    · obtain hsame | hnone := hdue
      · rw [hsocket]
        exact Nat.le_zero.mp (hcount.trans (h.none_of_due (hsame ▸ hsend)).le)
      · cases hnone.symm.trans hsend
  · -- nothing is under way on a new socket
    have hold : ∀ x ∈ s'.inFlight, x.2 < s'.req.worker.socket := fun x hx => by
      have := h.socket_le x (Multiset.mem_of_le hle hx)
      omega
    have hnone : s'.inFlight.countP (fun x => x.2 = s'.req.worker.socket) = 0 :=
      Multiset.countP_eq_zero.mpr fun x hx => (hold x hx).ne
    exact ⟨fun x hx => (hold x hx).le, fun x hx hcur => absurd hcur (hold x hx).ne,
      hnone.le.trans zero_le_one, fun _ => hnone⟩

theorem Awaiting.congr (h : s.Awaiting) (hle : s'.inFlight ≤ s.inFlight)
    (hrequested : requested s'.history = requested s.history)
    (hworker : s'.req.worker = s.req.worker) : s'.Awaiting :=
  h.onward hle hrequested (.same (.inl hworker))

theorem Awaiting.requests (h : s.Awaiting) {request : StdString}
    (hpc : s.req.worker.pc = .send request) (hworker : s'.req.worker = s.req.worker.goto .poll)
    (hflight : s'.inFlight =
      ((requested s.history).length, s.req.worker.socket) ::ₘ s.inFlight)
    (hrequested : (requested s'.history).length = (requested s.history).length + 1) :
    s'.Awaiting := by
  have hsocket : s'.req.worker.socket = s.req.worker.socket := by rw [hworker]; rfl
  have hnone := h.none_of_due (by rw [ReqWorker.due, hpc])
  refine ⟨fun x hx => ?_, fun x hx hcur => ?_, ?_, fun hsend => ?_⟩
  · rw [hflight] at hx
    obtain rfl | hx := Multiset.mem_cons.mp hx
    · exact hsocket.ge
    · exact hsocket ▸ h.socket_le x hx
  · rw [hflight] at hx
    obtain rfl | hx := Multiset.mem_cons.mp hx
    · exact hrequested.symm
    · exact absurd (hcur.trans hsocket) (Multiset.countP_eq_zero.mp hnone x hx)
  · simp [hflight, hsocket, hnone]
  · rw [hworker] at hsend
    cases hsend

theorem Awaiting.receives (h : s.Awaiting) {l : Letter}
    (hworker : s'.req.worker = s.req.worker.goto (.onMessage l.msg))
    (hl : l.socket = s.req.worker.socket)
    (hflight : s.inFlight = (l.num, l.socket) ::ₘ s'.inFlight) : s'.Awaiting := by
  have hsocket : s'.req.worker.socket = s.req.worker.socket := by rw [hworker]; rfl
  have hmem : ∀ x ∈ s'.inFlight, x ∈ s.inFlight := fun x hx =>
    hflight ▸ Multiset.mem_cons_of_mem hx
  have hnone : s'.inFlight.countP (fun x => x.2 = s'.req.worker.socket) = 0 := by
    have hone := h.one
    simp only [hflight, hl, Multiset.countP_cons, if_true] at hone
    rw [hsocket]
    omega
  exact ⟨fun x hx => hsocket ▸ h.socket_le x (hmem x hx),
    fun x hx hcur => absurd hcur (Multiset.countP_eq_zero.mp hnone x hx),
    hnone.le.trans zero_le_one, fun _ => hnone⟩

theorem awaiting_step [DecidableEq T] [DecidableEq U] {a : PairAction T U} (h : s.Awaiting)
    (hstep : s.step a = some s') : s'.Awaiting := by
  cases step_cases hstep with
  | requests hpc hworker =>
      refine h.requests hpc hworker ?_ (by simp [requested])
      simp only [inFlight, tags_append, tags_singleton, ← Multiset.singleton_add]
      abel
  | hands hpc hworker =>
      refine h.onward le_rfl ?_ (.handled hpc hworker)
      split_ifs <;> simp [requested]
  | reqGoes honward => exact h.onward le_rfl rfl honward
  | delivers =>
      refine h.congr le_rfl ?_ rfl
      cases s.current <;> simp [requested]
  | stores => exact h.congr le_rfl (by simp [requested]) rfl
  | replies =>
      refine h.congr (le_of_eq ?_) rfl rfl
      cases hcurrent : s.current with
      | none => simp [inFlight, hcurrent]
      | some c =>
          simp only [inFlight, hcurrent, Option.map_some, Option.toList_some, Option.toList_none,
            tags_append, tags_nil, tags_singleton]
          abel
  | repDone hstage hcurrent =>
      refine h.congr ?_ rfl rfl
      obtain rfl | rfl := hcurrent
      · exact le_rfl
      · exact add_le_add_left (add_le_add_right (Multiset.zero_le _) _) _
  | @receivesRequest l _ hl =>
      refine h.congr ?_ rfl rfl
      rw [inFlight, inFlight, tags_erase hl]
      exact add_le_add_left le_self_add _
  | @receivesReply l _ hl hsocket hpc hworker =>
      refine h.receives hworker hsocket ?_
      rw [inFlight, tags_erase hl, tags_singleton, ← Multiset.singleton_add, inFlight]
      abel
  | losesRequest => 
      refine h.congr ?_ rfl rfl
      exact add_le_add_left (add_le_add_left (tags_erase_le _ _) _) _
  | losesReply => 
      exact h.congr (add_le_add_right (tags_erase_le _ _) _) rfl rfl
  | _ => exact h.congr le_rfl rfl rfl

end Pair

/-! ### What REP does with a request -/

/-- What is known about the request REP works on: the application has been given it before it can
leave a reply. -/
def Handled (history : List Milestone) (current : Option Letter) (imp : Imp) :
    Option Stage → Prop
  | none => True
  | some (.deliver request) => ∃ c, current = some c ∧ c.msg = request
  | some .clear => ∃ c called, current = some c ∧
      (delivered history).getLast? = some (c.num, c.msg, called)
  | some .wait => ∃ c called, current = some c ∧
      (delivered history).getLast? = some (c.num, c.msg, called) ∧
      (imp.sendMessage = true → Answers history c.num imp.messageToSend)
  | some (.reply msg) => ∃ c, current = some c ∧ Answers history c.num msg

theorem Handled.append {history : List Milestone} {current : Option Letter} {imp : Imp}
    {stage : Option Stage} (h : Handled history current imp stage) {later : List Milestone}
    (hlater : delivered later = []) : Handled (history ++ later) current imp stage := by
  have hsame : delivered (history ++ later) = delivered history := delivered_append_of_nil hlater
  match stage with
  | none => trivial
  | some (.deliver request) => exact h
  | some .clear => simpa only [Handled, hsame] using h
  | some .wait =>
      obtain ⟨c, called, hcurrent, hlast, hleft⟩ := h
      exact ⟨c, called, hcurrent, by rwa [hsame], fun hsend => (hleft hsend).append later⟩
  | some (.reply msg) =>
      obtain ⟨c, hcurrent, hanswers⟩ := h
      exact ⟨c, hcurrent, hanswers.append later⟩

theorem Handled.congr {history : List Milestone} {current : Option Letter} {imp imp' : Imp}
    {stage : Option Stage} (h : Handled history current imp stage)
    (hsend : imp'.sendMessage = imp.sendMessage) (hmsg : imp'.messageToSend = imp.messageToSend) :
    Handled history current imp' stage := by
  match stage with
  | some .wait => simpa only [Handled, hsend, hmsg] using h
  | none | some (.deliver _) | some .clear | some (.reply _) => exact h

namespace Pair

variable {T U : Type} {s s' : Pair T U}

/-- Every reply on its way, and every reply handed over, answers its request. -/
structure Answering (s : Pair T U) : Prop where
  known : ∀ l, l ∈ s.requests ∨ l ∈ s.current → (requested s.history)[l.num]? = some l.msg
  handled : Handled s.history s.current s.rep.imp s.rep.worker.stage
  replies : ∀ l ∈ s.replies, Answers s.history l.num l.msg
  received : ∀ reply, s.req.worker.pc = .onMessage reply →
    ∃ num, num + 1 = (requested s.history).length ∧ Answers s.history num reply
  handed : ∀ before msg, before ++ [.handed msg] <+: s.history →
    ∃ called, AnswersLast before msg called

theorem handed_append {history : List Milestone} {m : Milestone}
    (h : ∀ before msg, before ++ [.handed msg] <+: history → ∃ called, AnswersLast before msg called)
    (hm : ∀ msg, m = .handed msg → ∃ called, AnswersLast history msg called) :
    ∀ before msg, before ++ [.handed msg] <+: history ++ [m] →
      ∃ called, AnswersLast before msg called := by
  intro before msg hbefore
  obtain heq | hbefore := List.prefix_concat_iff.mp hbefore
  · obtain ⟨rfl, hlast⟩ := List.append_inj' heq rfl
    exact hm msg (List.cons.inj hlast).1.symm
  · exact h before msg hbefore

theorem Answering.goes (h : s.Answering) {rep : Service RepWorker U} {current : Option Letter}
    (hcurrent : current = s.current ∨ current = none)
    (hhandled : Handled s.history current rep.imp rep.worker.stage) :
    Answering { s with rep, current } := by
  refine ⟨fun l hl => h.known l (hl.imp_right fun hl => ?_), hhandled, h.replies, h.received,
    h.handed⟩
  obtain rfl | rfl := hcurrent
  · exact hl
  · cases hl

theorem Answering.notes (h : s.Answering) {rep : Service RepWorker U} {m : Milestone}
    (hrequested : requested [m] = []) (hm : ∀ msg, m ≠ .handed msg)
    (hhandled : Handled (s.history ++ [m]) s.current rep.imp rep.worker.stage) :
    Answering { s with rep, history := s.history ++ [m] } := by
  have hsame : requested (s.history ++ [m]) = requested s.history := by
    rw [requested_append, hrequested, List.append_nil]
  refine ⟨fun l hl => hsame ▸ h.known l hl, hhandled, fun l hl => (h.replies l hl).append _,
    fun reply hreply => ?_, handed_append h.handed fun msg hmsg => absurd hmsg (hm msg)⟩
  obtain ⟨num, hnum, hanswers⟩ := h.received reply hreply
  exact ⟨num, hsame ▸ hnum, hanswers.append _⟩

theorem Answering.requests (h : s.Answering) {req : Service ReqWorker T} {request : StdString}
    (hworker : req.worker = s.req.worker.goto .poll) {socket : Nat} :
    Answering { s with
      req, requests := s.requests ++ [⟨(requested s.history).length, socket, request⟩]
      history := s.history ++ [.requested request] } := by
  have hold : ∀ l : Letter, (requested s.history)[l.num]? = some l.msg →
      (requested (s.history ++ [.requested request]))[l.num]? = some l.msg := fun l =>
    requested_getElem? (List.prefix_append _ _)
  refine ⟨fun l hl => ?_, h.handled.append rfl, fun l hl => (h.replies l hl).append _,
    fun reply hreply => ?_, handed_append h.handed (by simp)⟩
  · obtain hl | hl := hl
    · obtain hl | hl := List.mem_append.mp hl
      · exact hold l (h.known l (.inl hl))
      · obtain rfl := List.mem_singleton.mp hl
        simp [requested]
    · exact hold l (h.known l (.inr hl))
  · rw [hworker] at hreply
    cases hreply

theorem Answering.hands (h : s.Answering) {req : Service ReqWorker T} {reply : StdString}
    (hpc : s.req.worker.pc = .onMessage reply)
    (hworker : req.worker = s.req.worker.goto .checkClose) :
    Answering { s with req, history := s.history ++ [.handed reply] } := by
  have hold : requested (s.history ++ [.handed reply]) = requested s.history := by
    simp [requested]
  refine ⟨fun l hl => hold ▸ h.known l hl, h.handled.append rfl,
    fun l hl => (h.replies l hl).append _, fun msg hmsg => ?_,
    handed_append h.handed fun msg hmsg => ?_⟩
  · rw [hworker] at hmsg
    cases hmsg
  · obtain rfl := Milestone.handed.inj hmsg
    obtain ⟨num, hnum, hanswers⟩ := h.received reply hpc
    exact hanswers.last hnum

theorem answering_step [DecidableEq T] [DecidableEq U] {a : PairAction T U}
    (hawaiting : s.Awaiting) (h : s.Answering) (hstep : s.step a = some s') : s'.Answering := by
  cases step_cases hstep with
  | requests hpc hworker => exact h.requests hworker
  | hands hpc hworker =>
      split_ifs
      · exact h.hands hpc hworker
      · refine ⟨h.known, h.handled, h.replies, fun msg hmsg => ?_, h.handed⟩
        rw [hworker] at hmsg
        cases hmsg
  | reqGoes honward =>
      exact ⟨h.known, h.handled, h.replies,
        fun reply hreply => h.received reply (honward.onMessage reply hreply), h.handed⟩
  | delivers hpc hstage =>
      have hhandled := h.handled
      rw [RepWorker.stage, hpc] at hhandled
      obtain ⟨c, hcurrent, rfl⟩ := hhandled
      have hnote : (s.current.map fun c' => Milestone.delivered c'.num c.msg
          s.rep.imp.onMessageFunc).toList = [.delivered c.num c.msg s.rep.imp.onMessageFunc] := by
        rw [hcurrent]
        rfl
      rw [hnote]
      refine h.notes rfl (by simp) ?_
      rw [hstage]
      exact ⟨c, s.rep.imp.onMessageFunc, hcurrent, by simp [delivered]⟩
  | clears hclear himp hstage =>
      have hhandled := h.handled
      rw [hclear] at hhandled
      obtain ⟨c, called, hcurrent, hlast⟩ := hhandled
      refine h.goes (.inl rfl) ?_
      rw [hstage]
      exact ⟨c, called, hcurrent, hlast, fun hsend => absurd (himp.symm.trans hsend) (by simp)⟩
  | @stores _ msg _ hfree hmsg hstage =>
      refine h.notes rfl (by simp) ?_
      rw [hstage]
      obtain hwait | hnone := hfree
      · -- what is left now answers the request that REP works on
        have hhandled := h.handled
        rw [hwait] at hhandled ⊢
        obtain ⟨c, called, hcurrent, hlast, -⟩ := hhandled
        refine ⟨c, called, hcurrent, by simpa [delivered] using hlast, fun _ => ?_⟩
        exact ⟨s.history, c.msg, called, by rw [hmsg], hlast, h.known c (.inr hcurrent)⟩
      · rw [hnone]
        trivial
  | takes hwait himp hstage =>
      have hhandled := h.handled
      rw [hwait] at hhandled
      obtain ⟨c, called, hcurrent, -, hleft⟩ := hhandled
      refine h.goes (.inl rfl) ?_
      rw [hstage]
      exact ⟨c, hcurrent, hleft himp⟩
  | replies hpc hstage =>
      have hhandled := h.handled
      rw [RepWorker.stage, hpc] at hhandled
      obtain ⟨c, hcurrent, hanswers⟩ := hhandled
      refine ⟨fun l hl => h.known l (hl.imp_right (by simp)), ?_, fun l hl => ?_, h.received,
        h.handed⟩
      · rw [hstage]
        trivial
      · rw [hcurrent] at hl
        obtain hl | hl := List.mem_append.mp hl
        · exact h.replies l hl
        · obtain rfl := List.mem_singleton.mp hl
          exact hanswers
  | repGoes hstage hsend hmsg =>
      refine h.goes (.inl rfl) ?_
      rw [hstage]
      exact h.handled.congr hsend hmsg
  | repDone hstage hcurrent =>
      refine h.goes hcurrent ?_
      rw [hstage]
      trivial
  | @receivesRequest l _ hl hstage =>
      refine ⟨fun l' hl' => h.known l' ?_, ?_, h.replies, h.received, h.handed⟩
      · obtain hl' | hl' := hl'
        · exact .inl (List.mem_of_mem_erase hl')
        · obtain rfl := Option.some.inj hl'
          exact .inl hl
      · rw [hstage]
        exact ⟨l, rfl, rfl⟩
  | @receivesReply l _ hl hsocket hpc hworker =>
      refine ⟨h.known, h.handled, fun l' hl' => h.replies l' (List.mem_of_mem_erase hl'),
        fun reply hreply => ?_, h.handed⟩
      -- the reply is to the last request, since REQ's socket awaits no other
      rw [hworker] at hreply
      obtain rfl := ReqPc.onMessage.inj hreply
      have hmem : (l.num, l.socket) ∈ s.inFlight := by
        simp [inFlight, tags_erase hl]
      exact ⟨l.num, hawaiting.last _ hmem hsocket, h.replies l hl⟩
  | losesRequest =>
      exact ⟨fun l hl => h.known l (hl.imp_left List.mem_of_mem_erase), h.handled, h.replies,
        h.received, h.handed⟩
  | losesReply =>
      exact ⟨h.known, h.handled, fun l hl => h.replies l (List.mem_of_mem_erase hl), h.received,
        h.handed⟩

/-! ### The result -/

/-- The REP application has registered its handler when the worker runs. -/
def RepRegistered (s : Pair T U) (a : PairAction T U) : Prop :=
  a.isRepWorker = true → s.rep.imp.onMessageFunc = true

instance (s : Pair T U) (a : PairAction T U) : Decidable (s.RepRegistered a) :=
  inferInstanceAs (Decidable (_ → _))

theorem called_step [DecidableEq T] [DecidableEq U] {a : PairAction T U}
    (h : ∀ x ∈ delivered s.history, x.2.2 = true) (hregistered : s.RepRegistered a)
    (hstep : s.step a = some s') : ∀ x ∈ delivered s'.history, x.2.2 = true := by
  cases step_cases hstep with
  | requests | stores =>
      rwa [delivered_append_of_nil rfl]
  | hands =>
      split_ifs
      · rwa [delivered_append_of_nil rfl]
      · exact h
  | delivers =>
      intro x hx
      obtain hx | hx := List.mem_append.mp (delivered_append _ _ ▸ hx)
      · exact h x hx
      · have hcalled : s.rep.imp.onMessageFunc = true := hregistered rfl
        cases hcurrent : s.current with
        | none => simp [hcurrent, delivered] at hx
        | some c =>
            obtain rfl : x = (c.num, _, s.rep.imp.onMessageFunc) := by
              simpa [hcurrent, delivered] using hx
            exact hcalled
  | _ => exact h

variable [DecidableEq T] [DecidableEq U]

theorem answering {allowed : Pair T U → PairAction T U → Prop}
    (h : Runs.Reachable step allowed init s) : s.Awaiting ∧ s.Answering := by
  refine h.invariant (fun s => s.Awaiting ∧ s.Answering) ⟨?_, ?_⟩ ?_
  · exact ⟨by simp [init, inFlight], by simp [init, inFlight], by simp [init, inFlight],
      by simp [init, inFlight]⟩
  · exact ⟨by simp [init], trivial, by simp [init], by simp [init, Service.init, workerReq],
      by simp [init]⟩
  · rintro s a s' ⟨hawaiting, hanswering⟩ - hstep
    exact ⟨awaiting_step hawaiting hstep, answering_step hawaiting hanswering hstep⟩

/-- **Correlation.** Whatever REQ's handler is given was left by REP's `sendMessage` when the last
request REP had handed to its application was the one that REQ has sent last. If a handler is
registered at REP, that request was given to it. -/
theorem handed_answers_last_request :
    (∀ s : Pair T U, Runs.Reachable step (fun _ _ => True) init s → ∀ before msg,
      before ++ [.handed msg] <+: s.history → ∃ called, AnswersLast before msg called) ∧
    (∀ s : Pair T U, Runs.Reachable step RepRegistered init s → ∀ before msg,
      before ++ [.handed msg] <+: s.history → AnswersLast before msg true) := by
  refine ⟨fun s h => (answering h).2.handed, fun s h before msg hbefore => ?_⟩
  obtain ⟨called, earlier, num, request, hearlier, hlast, hrequest⟩ := (answering h).2.handed before msg hbefore
  have hcalled : ∀ x ∈ delivered s.history, x.2.2 = true :=
    h.invariant (fun s => ∀ x ∈ delivered s.history, x.2.2 = true) (by simp [init, delivered])
      fun s a s' hinv hregistered hstep => called_step hinv hregistered hstep
  obtain rfl : called = true := by
    obtain ⟨later, hlater⟩ := (List.prefix_append _ _).trans (hearlier.trans
      ((List.prefix_append _ _).trans hbefore))
    refine hcalled (num, request, called) ?_
    rw [← hlater, delivered_append]
    exact List.mem_append_left _ (List.mem_of_getLast? hlast)
  exact ⟨earlier, num, request, hearlier, hlast, hrequest⟩

/-- REQ times out and asks again; then REP answers both requests. The late reply stays behind. -/
theorem handed_answers_last_request_late : ∃ s : Pair Bool Bool,
    s.replies = [⟨0, 1, [7]⟩] ∧ ∃ before, before ++ [.handed [8]] <+: s.history ∧
      AnswersLast before [8] true := by
  have hrun : ∃ s : Pair Bool Bool, Runs.Reachable step RepRegistered init s ∧
      s.replies = [⟨0, 1, [7]⟩] ∧ s.history = [.requested [1], .requested [2],
        .delivered 0 [1] true, .stored [7], .delivered 1 [2] true, .stored [8], .handed [8]] :=
    Runs.exists_reachable (List.flatten [
      List.map .req (List.flatten [[.registerOnMessage true, .open true], Action.working 10,
        [.sendMessage false [1]], Action.working 3, [.worker (.polled false)], Action.working 15,
        [.sendMessage false [2]], Action.working 3, [.worker (.polled true)]]),
      List.map .rep (List.flatten [[.registerOnMessage true, .open true], Action.working 8,
        [.worker (.polled true)], Action.working 1]),
      [.receiveRequest ⟨0, 1, [1]⟩],
      List.map .rep (List.flatten [Action.working 4, [.sendMessage false [7]], Action.working 5,
        [.worker (.polled true)], Action.working 1]),
      [.receiveRequest ⟨1, 2, [2]⟩],
      List.map .rep (List.flatten [Action.working 4, [.sendMessage false [8]], Action.working 3]),
      [.receiveReply ⟨1, 2, [8]⟩, .req (.worker .ok)]]) (by decide +kernel)
  obtain ⟨s, hs, hreplies, hhistory⟩ := hrun
  refine ⟨s, hreplies, [.requested [1], .requested [2], .delivered 0 [1] true, .stored [7],
    .delivered 1 [2] true, .stored [8]], ?_, handed_answers_last_request.2 s hs _ _ ?_⟩ <;>
  · rw [hhistory]
    exact List.prefix_rfl

end Pair

end Shapeware.ZeroMq
