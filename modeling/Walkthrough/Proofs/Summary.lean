import Walkthrough.Proofs.Rounds
import Walkthrough.Proofs.Schedule

/-!
# What a walk sums up

When a walk is over, every step is completed, has failed, waits for the user or is blocked, and the
summary has it in the list of that name (`Session.Accounts`). A step is blocked by the ancestors that
have failed or wait for the user, and by nothing else. This holds in whatever state earlier calls
and walks have left the session (`Session.accounts_of_walk`).
-/

namespace Walkthrough.Session

variable {opts : RunOptions} {s t u : Session} {id : String} {ids : List String} {f : Flow}
  {events : List Event} {g k : Stage}

/-! ## Views -/

theorem id_standing : (standing f s ids id).id = id := by
  unfold standing
  split
  · rfl
  · rfl
  · rfl
  · split <;> rfl

theorem viewed_map (l : List String) (v : View) :
    viewed (l.map (standing f s ids)) v = l.filter fun id => (standing f s ids id).view == v := by
  unfold viewed
  rw [List.filter_map, List.map_map]
  have names : (fun c : Standing => c.id) ∘ standing f s ids = id := by
    funext id
    exact id_standing
  rw [names, List.map_id]
  rfl

/-- The four lists of a summary hold every step once, when no step is under way. -/
theorem views_perm (l : List String) (view : String → View) (idle : ∀ id ∈ l, view id ≠ .running) :
    (l.filter (view · == .completed) ++ l.filter (view · == .failed) ++
      l.filter (view · == .eligible) ++ l.filter (view · == .blocked)).Perm l := by
  induction l with
  | nil => rfl
  | cons id l ih =>
    have rest := ih fun x mem => idle x (List.mem_cons_of_mem id mem)
    -- The list that takes the first step in is split before it.
    cases sort : view id with
    | completed => simpa [List.filter_cons, sort] using rest
    | running => exact absurd sort (idle id List.mem_cons_self)
    | failed =>
      simp only [List.filter_cons, sort, List.append_assoc] at rest ⊢
      exact List.perm_middle.trans (rest.cons id)
    | eligible =>
      simp only [List.filter_cons, sort, List.append_assoc] at rest ⊢
      rw [← List.append_assoc] at rest ⊢
      exact List.perm_middle.trans (rest.cons id)
    | blocked =>
      simp only [List.filter_cons, sort] at rest ⊢
      exact List.perm_middle.trans (List.Perm.cons id (by simpa using rest))

/-- What a view says of a step, given the eligible steps. -/
def Stands (s : Session) (ids : List String) (id : String) : View → Prop
  | .completed => s.status id = .completed
  | .running => s.status id = .running
  | .failed => s.status id = .failed
  | .eligible => s.status id = .pending ∧ id ∈ ids
  | .blocked => s.status id = .pending ∧ id ∉ ids

theorem view_eq_iff (v : View) : (standing f s ids id).view = v ↔ s.Stands ids id v := by
  unfold standing
  cases status : s.status id with
  | pending =>
    by_cases mem : id ∈ ids
    · cases v <;> simp [Stands, status, mem]
    · cases v <;> simp [Stands, status, mem]
  | running | completed | failed => cases v <;> simp [Stands, status]

/-! ## When a walk is over -/

/-- The summary gives the right account of a session. -/
structure Accounts (u : Session) (m : Summary) : Prop where
  completed : ∀ id, id ∈ m.completed ↔ id ∈ u.flow.order ∧ u.status id = .completed
  failed : ∀ id, id ∈ m.failed ↔ id ∈ u.flow.order ∧ u.status id = .failed
  waiting : ∀ id, id ∈ m.waiting ↔
    id ∈ u.flow.order ∧ u.flow.isManual id = true ∧ u.status id = .pending ∧ u.missing id = []
  blocked : ∀ id, id ∈ m.blocked ↔
    id ∈ u.flow.order ∧ u.status id = .pending ∧ u.missing id ≠ []
  ordered : ∀ listed ∈ [m.completed, m.failed, m.waiting, m.blocked],
    listed.Sublist u.flow.order
  partition : (m.completed ++ m.failed ++ m.waiting ++ m.blocked).Perm u.flow.order
  distinct : (m.completed ++ m.failed ++ m.waiting ++ m.blocked).Nodup
  /-- No automatic step that could be attempted has been passed over. -/
  thorough : ∀ ids, u.eligible = .ok ids →
    ∀ id ∈ ids, u.flow.isManual id = false → id ∈ m.executed
  /-- A step is blocked by the ancestors that are not completed though nothing blocks them. -/
  behind : ∀ id, id ∈ m.blocked ↔
    ∃ a, u.flow.HasAncestor id a ∧ (a ∈ m.failed ∨ a ∈ m.waiting)

theorem Stage.Over.tried (spent : g.Over opts) (h : g.Sound) (told : g.session.eligible = .ok ids)
    (mem : id ∈ ids) (automatic : g.session.flow.isManual id = false) : id ∈ g.attempted := by
  obtain ⟨others, again, next⟩ := spent
  cases told.symm.trans again
  have declared : ∀ x ∈ ids, x ∈ g.session.flow.order := by
    intro x listed
    exact ((h.steady.mem_eligible_iff told).mp listed).1
  exact (nextRound_none next declared id mem).1 automatic

theorem Stage.Over.manual (spent : g.Over opts) (h : g.Sound) (declared : id ∈ g.session.flow.order)
    (pending : g.session.status id = .pending) (ready : g.session.missing id = []) :
    g.session.flow.isManual id = true := by
  have told := eligible_eq h.steady.consistent
  have incomplete : g.session.isCompleted id = false := by simp [isCompleted, pending]
  have mem := (h.steady.mem_eligible_iff told).mpr ⟨declared, incomplete, ready⟩
  cases kind : g.session.flow.isManual id with
  | true => rfl
  | false =>
    -- An automatic step would have been attempted, and then it would have a result.
    have tried := spent.tried h told mem kind
    exact absurd (h.steady.status_eq_pending_iff.mp pending) (h.tried id tried)

/-- A step that waits for others has an ancestor that has failed, or one that is pending and waits
for no other. -/
theorem Steady.exists_cause (h : u.Steady) (wf : u.flow.WellFormed) :
    ∀ id ∈ u.flow.order, u.missing id ≠ [] → ∃ a, u.flow.HasAncestor id a ∧
      (u.status a = .failed ∨ u.status a = .pending ∧ u.missing a = []) := by
  -- Along the schedule: a prerequisite that waits itself already has such an ancestor.
  refine wf.induction ?_
  intro id _ before waits
  rw [Ne, missing_eq_nil_iff] at waits
  push Not at waits
  obtain ⟨p, link, incomplete⟩ := waits
  have parent : u.flow.HasAncestor id p := .single link
  rcases h.status p with ⟨pending, _⟩ | ⟨completed | failed, _⟩
  · by_cases ready : u.missing p = []
    · exact ⟨p, parent, Or.inr ⟨pending, ready⟩⟩
    · obtain ⟨a, ancestor, cause⟩ := before p parent ready
      exact ⟨a, parent.trans ancestor, cause⟩
  · simp [isCompleted, completed] at incomplete
  · exact ⟨p, parent, Or.inl failed⟩

/-- A step waits for others as soon as an ancestor is not completed, and then it is pending. -/
theorem Steady.pending_of_hasAncestor {a : String} (h : u.Steady) (ancestor : u.flow.HasAncestor id a)
    (incomplete : u.isCompleted a = false) : u.status id = .pending ∧ u.missing id ≠ [] := by
  have waits : u.missing id ≠ [] := by
    intro ready
    rw [h.consistent.isCompleted_of_hasAncestor ready ancestor] at incomplete
    cases incomplete
  -- A result would mean that the prerequisites were completed.
  rcases h.status id with ⟨pending, _⟩ | ⟨_, ready⟩
  · exact ⟨pending, waits⟩
  · exact absurd ready waits

/-! ## The summary -/

def under (u : Session) (ids : List String) (v : View) : List String :=
  viewed (u.flow.order.map (standing u.flow u ids)) v

theorem mem_under_iff {v : View} :
    id ∈ u.under ids v ↔ id ∈ u.flow.order ∧ u.Stands ids id v := by
  rw [under, viewed_map, List.mem_filter, beq_iff_eq, view_eq_iff]

theorem under_sublist (u : Session) (ids : List String) (v : View) :
    (u.under ids v).Sublist u.flow.order := by
  rw [under, viewed_map]
  exact List.filter_sublist

theorem Steady.mem_under_eligible_iff (h : u.Steady) (told : u.eligible = .ok ids) :
    id ∈ u.under ids .eligible ↔
      id ∈ u.flow.order ∧ u.status id = .pending ∧ u.missing id = [] := by
  rw [mem_under_iff, Stands, h.mem_eligible_iff told]
  refine and_congr_right fun declared => and_congr_right fun pending => ?_
  constructor
  · intro eligible
    exact eligible.2.2
  · intro ready
    exact ⟨declared, by simp [isCompleted, pending], ready⟩

theorem Steady.mem_under_blocked_iff (h : u.Steady) (told : u.eligible = .ok ids) :
    id ∈ u.under ids .blocked ↔
      id ∈ u.flow.order ∧ u.status id = .pending ∧ u.missing id ≠ [] := by
  rw [mem_under_iff, Stands, h.mem_eligible_iff told]
  refine and_congr_right fun declared => and_congr_right fun pending => not_congr ?_
  constructor
  · intro eligible
    exact eligible.2.2
  · intro ready
    exact ⟨declared, by simp [isCompleted, pending], ready⟩

theorem Steady.under_perm (h : u.Steady) (ids : List String) :
    (u.under ids .completed ++ u.under ids .failed ++ u.under ids .eligible ++
      u.under ids .blocked).Perm u.flow.order := by
  simp only [under, viewed_map]
  refine views_perm u.flow.order _ ?_
  intro id _ running
  rw [view_eq_iff] at running
  exact h.status_ne_running id running

theorem mem_order_of_hasAncestor {a : String} (ancestor : f.HasAncestor id a) : id ∈ f.order := by
  obtain ⟨p, link, _⟩ := Relation.TransGen.head'_iff.mp ancestor
  exact Flow.mem_order_of_mem_prerequisites link

/-- Whatever blocks a step is above it, and has failed or waits for no other. -/
theorem Steady.mem_under_blocked_iff_cause (h : u.Steady) (wf : u.flow.WellFormed)
    (told : u.eligible = .ok ids) :
    id ∈ u.under ids .blocked ↔ ∃ a, u.flow.HasAncestor id a ∧
      (a ∈ u.under ids .failed ∨ a ∈ u.under ids .eligible) := by
  rw [h.mem_under_blocked_iff told]
  constructor
  · rintro ⟨declared, _, missing⟩
    obtain ⟨a, ancestor, cause⟩ := h.exists_cause wf id declared missing
    have above := (wf.lt_of_hasAncestor ancestor).1
    refine ⟨a, ancestor, ?_⟩
    rw [h.mem_under_eligible_iff told]
    rcases cause with failed | free
    · exact Or.inl (mem_under_iff.mpr ⟨above, failed⟩)
    · exact Or.inr ⟨above, free⟩
  · rintro ⟨a, ancestor, cause⟩
    refine ⟨mem_order_of_hasAncestor ancestor, h.pending_of_hasAncestor ancestor ?_⟩
    rcases cause with mem | mem
    · have failed : u.status a = .failed := (mem_under_iff.mp mem).2
      simp [isCompleted, failed]
    · have free := (h.mem_under_eligible_iff told).mp mem
      simp [isCompleted, free.2.1]

theorem Stage.Over.mem_waiting_iff (spent : g.Over opts) (h : g.Sound)
    (told : g.session.eligible = .ok ids) :
    id ∈ g.session.under ids .eligible ↔ id ∈ g.session.flow.order ∧
      g.session.flow.isManual id = true ∧ g.session.status id = .pending ∧
        g.session.missing id = [] := by
  rw [h.steady.mem_under_eligible_iff told]
  constructor
  · rintro ⟨declared, pending, ready⟩
    exact ⟨declared, spent.manual h declared pending ready, pending, ready⟩
  · rintro ⟨declared, _, pending, ready⟩
    exact ⟨declared, pending, ready⟩

theorem Stage.Over.summaryOf_eq (spent : g.Over opts) (h : g.Sound)
    (told : g.session.eligible = .ok ids) {standings : List Standing}
    (classified : g.session.classify = .ok standings) :
    summaryOf g.session.flow g.attempted standings =
      { executed := g.attempted, completed := g.session.under ids .completed
        failed := g.session.under ids .failed, waiting := g.session.under ids .eligible
        blocked := g.session.under ids .blocked } := by
  -- The filter on manual steps drops none of those that are listed as eligible.
  have waiting : (g.session.under ids .eligible).filter g.session.flow.isManual =
      g.session.under ids .eligible := by
    rw [List.filter_eq_self]
    intro id mem
    exact ((spent.mem_waiting_iff h told).mp mem).2.1
  have listed : standings = g.session.flow.order.map (standing g.session.flow g.session ids) := by
    unfold eligible at told
    rw [classify, classifyIn, told] at classified
    cases classified
    rfl
  rw [listed, ← waiting]
  rfl

theorem Stage.Over.accounts (spent : g.Over opts) (h : g.Sound) (wf : g.session.flow.WellFormed)
    {standings : List Standing} (classified : g.session.classify = .ok standings) :
    Accounts g.session (summaryOf g.session.flow g.attempted standings) := by
  have told := eligible_eq h.steady.consistent
  generalize eligibleAmong g.session.flow g.session.completed = ids at told
  have perm := h.steady.under_perm ids
  rw [spent.summaryOf_eq h told classified]
  constructor
  case completed => exact fun id => mem_under_iff
  case failed => exact fun id => mem_under_iff
  case waiting => exact fun id => spent.mem_waiting_iff h told
  case blocked => exact fun id => h.steady.mem_under_blocked_iff told
  case ordered => simp [under_sublist]
  case partition => exact perm
  case distinct => exact perm.nodup_iff.mpr wf.distinct
  case thorough => exact fun others again id mem automatic => spent.tried h again mem automatic
  case behind => exact fun id => h.steady.mem_under_blocked_iff_cause wf told

/-! ## Walks -/

/-- A walk from a steady session ends well: it is made of rounds, goes on until nothing is left to
do, and sums up where it has come to. -/
theorem Steady.ends_of_walk (h : t.Steady) {out : Session × Except Misuse Summary}
    (run : (t.walk opts).Runs events out) :
    ∃ n g path standings, Advances opts n ⟨t, [], []⟩ path g ∧ g.Sound ∧ g.Over opts ∧
      g.session.flow = t.flow ∧ g.session.classify = .ok standings ∧
      out = (g.session, .ok (summaryOf t.flow g.attempted standings)) ∧
      events = path ++ [.said (walkNote t.flow (summaryOf t.flow g.attempted standings))] := by
  obtain ⟨first, second, between, rfl, goes, ends⟩ := Talk.runs_bind_iff.mp run
  have enough : t.flow.order.length ≤ (Stage.mk t [] []).size + t.flow.steps.length := by
    simp [Stage.size, Flow.order]
  obtain ⟨n, g, path, spent, rfl⟩ := h.stage_sound.advances_of_rounds enough goes
  obtain ⟨sound, flow, _⟩ := path.sound h.stage_sound
  obtain ⟨standings, classified⟩ := exists_classify sound.steady.consistent
  simp only [classified, flow] at ends
  obtain ⟨rest, rfl, ended⟩ := Talk.runs_note_iff.mp ends
  obtain ⟨rfl, rfl⟩ := Talk.runs_done_iff.mp ended
  exact ⟨n, g, first, standings, path, sound, spent, flow, classified, rfl, rfl⟩

/-- The session can be left by attempts, completions, restarts and walks made one after the
other. -/
inductive Visits (s : Session) : Session → Prop
  | start : Visits s s
  | attempt {t : Session} {id : String} {opts : RunOptions} {events : List Event}
      {out : Except Misuse (Session × StepResult)} (prior : Visits s t)
      (run : (t.attempt id opts).Runs events out) : Visits s (t.leftBy out)
  | completeManual {t : Session} (prior : Visits s t) (id : String) (fields : Fields) :
      Visits s (t.after (.completeManual id fields))
  | restart {t : Session} (prior : Visits s t) (id : String) : Visits s (t.after (.restart id))
  | walk {t u : Session} {opts : RunOptions} {events : List Event}
      {outcome : Except Misuse Summary} (prior : Visits s t)
      (run : (t.walk opts).Runs events (u, outcome)) : Visits s u

theorem flow_after (s : Session) (c : Call) : (s.after c).flow = s.flow := by
  rcases after_cases s c with same | change
  · rw [same]
  · exact change.flow_eq

theorem Attempted.flow_eq {sent : List (Wire × Outcome)} {out : Except Misuse (Session × StepResult)}
    (a : Attempted s id opts sent out) : (s.leftBy out).flow = s.flow := by
  cases a <;> rfl

theorem steady_of_visits (new : s.IsNew) (h : Visits s t) : t.Steady ∧ t.flow = s.flow := by
  induction h with
  | start => exact ⟨new.steady, rfl⟩
  | attempt _ run ih =>
    have attempted := attempted_of_runs ih.1.consistent run
    exact ⟨ih.1.attempted attempted, attempted.flow_eq.trans ih.2⟩
  | completeManual _ id fields ih =>
    exact ⟨ih.1.after_completeManual id fields, (flow_after _ _).trans ih.2⟩
  | restart _ id ih => exact ⟨ih.1.after_restart id, (flow_after _ _).trans ih.2⟩
  | walk _ run ih =>
    obtain ⟨_, g, _, _, _, sound, _, flow, _, ended, _⟩ := ih.1.ends_of_walk run
    cases ended
    exact ⟨sound.steady, flow.trans ih.2⟩

/-- Whatever has been done to a session before, and whatever servers and users answer, a walk ends
well and accounts for every step. It consists of the attempts of the steps that it names as executed,
and of the offers made in between. -/
theorem accounts_of_walk {doc : Option Value} (compiled : Flow.ofDocument doc = .ok s.flow)
    (new : s.IsNew) (visits : Visits s t) (opts : RunOptions) :
    (∃ events out, (t.walk opts).Runs events out) ∧
      ∀ events u outcome, (t.walk opts).Runs events (u, outcome) →
        ∃ m, outcome = .ok m ∧ u.flow = s.flow ∧ Accounts u m ∧
          ∃ n path offered, Advances opts n ⟨t, [], []⟩ path ⟨u, m.executed, offered⟩ ∧
            events = path ++ [.said (walkNote u.flow m)] := by
  obtain ⟨steady, same⟩ := steady_of_visits new visits
  have wf : t.flow.WellFormed := same ▸ Flow.wellFormed_of_ofDocument compiled
  constructor
  · obtain ⟨events, out, run, _⟩ :=
      Talk.exists_runs (fun _ => .answered ⟨200, "OK", [], .ok ""⟩) (t.walk opts)
    exact ⟨events, out, run⟩
  · intro events u outcome run
    obtain ⟨n, g, path, standings, advances, sound, spent, flow, classified, ended, rfl⟩ :=
      steady.ends_of_walk run
    cases ended
    have accounts := spent.accounts sound (flow ▸ wf) classified
    rw [← flow]
    exact ⟨_, rfl, flow.trans same, accounts, n, path, g.offered, advances, rfl⟩

/-- A request has been refused before the walk, and a manual step is left by the user, with a step
behind each of them. -/
theorem accounts_after_refusal : ∃ (doc : Value) (s t : Session) (opts : RunOptions),
    Flow.ofDocument (some doc) = .ok s.flow ∧ s.IsNew ∧ Visits s t ∧ t.status "fetch" = .failed ∧
      ∀ events u outcome, (t.walk opts).Runs events (u, outcome) →
        ∃ m, outcome = .ok m ∧ u.flow = s.flow ∧ Accounts u m := by
  let s : Session :=
    { flow :=
        { steps :=
            [⟨"login", "login", "", [], [], [], none, []⟩,
              ⟨"list", "list", "", [], [], ["login"], some ⟨"GET", "/list", [], none, none⟩, []⟩,
              ⟨"fetch", "fetch", "", [], [], [], some ⟨"GET", "/fetch", [], none, none⟩, []⟩,
              ⟨"report", "report", "", [], [], ["fetch"], some ⟨"GET", "/r", [], none, none⟩, []⟩]
          endpointDefaults := [], schedule := ["login", "fetch", "list", "report"], warnings := [] } }
  have compiled : Flow.ofDocument (some (.mapping
      [("steps", .list [.mapping [("id", .text "login"), ("manual", .bool true)],
          .mapping [("id", .text "list")], .mapping [("id", .text "fetch")],
          .mapping [("id", .text "report")]]),
        ("dependencies", .mapping
          [("list", .list [.text "login"]), ("report", .list [.text "fetch"])]),
        ("requests", .mapping [("list", .mapping [("url", .text "/list")]),
          ("fetch", .mapping [("url", .text "/fetch")]),
          ("report", .mapping [("url", .text "/r")])])])) = .ok s.flow := rfl
  have refused := @Visits.attempt s s "fetch" { limit := .ofInt 1000 } _ _ .start
    (.note (.note (@Talk.Runs.send _ _ _ (.answered ⟨500, "Error", [], .ok ""⟩) _ _
      (.note (.done _)))))
  refine ⟨_, s, _, { limit := .ofInt 1000, onManual := some fun _ => .done none }, compiled, rfl,
    refused, rfl, ?_⟩
  intro events u outcome run
  obtain ⟨m, ended, flow, accounts, _⟩ := (accounts_of_walk compiled rfl refused _).2 _ _ _ run
  exact ⟨m, ended, flow, accounts⟩

end Walkthrough.Session
