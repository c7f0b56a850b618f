import AutoQa.Cli.AuditOutcome

/-!
# The cost ceiling of the audit

The loop compares `maxCost` with a total that it sums up from the usages that
`executeFeatureAudit` returns. As long as the responses that a call loses were
free, that total is what was spent, and the ceiling holds in every state in
which a feature's test starts. The totals are exact: the rounding of the
source's doubles is left out.
-/

namespace AutoQa.Cli

open AutoQa.Base AutoQa.LlmAgents AutoQa.Db

/-- The cost of all responses received since the trace had length `n`. -/
def spentFrom (n : Nat) (s : AuditState) : Cost :=
  ((receivedUsages (s.trace.drop n)).map Usage.cost).sum

/-- The cost of all responses received inside the call of an iteration. -/
def callCost (a : Audit) (x : Nat × Selected × AuditState) : Cost :=
  ((receivedUsages (featureCall a x.2.1 x.2.2).2).map Usage.cost).sum

def Below (c : Cost) (bound : ℚ) : Prop := ∃ q, c = .usd q ∧ q < bound

/-- No response of the call has an unknown price, and those that its result
does not carry were free. -/
structure LosesNothing (a : Audit) (x : Nat × Selected × AuditState) : Prop where
  priced : ∀ u ∈ receivedUsages (featureCall a x.2.1 x.2.2).2, u.cost ≠ .nan
  free : ∀ u ∈ lostResponses (featureCall a x.2.1 x.2.2).1 (featureCall a x.2.1 x.2.2).2,
    u.cost = 0

/-! ## What an iteration spends -/

/-- The call only appends its events to the trace. -/
theorem featureCall_trace (a : Audit) (feat : Selected) (s : AuditState) :
    (executeFeatureAudit a.w (toString s.db.testRuns.length) feat.2.toAuditFeature a.url none
      s.trace).2 = s.trace ++ (featureCall a feat s).2 := by
  obtain ⟨es, hes, -⟩ := executeFeatureAudit_accounts a.w (toString s.db.testRuns.length)
    feat.2.toAuditFeature a.url none s.trace
  simp only [featureCall]
  rw [hes, List.drop_left]

theorem featureCall_accounted (a : Audit) (feat : Selected) (s : AuditState) :
    Accounted (featureCall a feat s).1 (featureCall a feat s).2 := by
  obtain ⟨es, hes, hacc⟩ := executeFeatureAudit_accounts a.w (toString s.db.testRuns.length)
    feat.2.toAuditFeature a.url none s.trace
  simp only [featureCall]
  rw [hes, List.drop_left]
  exact hacc

section NoFaults

variable {a : Audit} (hfaults : ∀ i step, a.faults i step = none)
include hfaults

theorem recordResult_unbilled (iter : Nat) (feat : Selected) (run : Id) (result : FeatureResult)
    (s : AuditState) :
    ∃ t more, recordResult a iter feat run result s = (.ok (), t) ∧ receivedUsages more = [] ∧
      t.trace = s.trace ++ more ∧ t.totalCost = s.totalCost := by
  cases result with
  | skipped reason =>
    have heq : recordResult a iter feat run (.skipped reason) s = (.ok (),
        setStatus run .skipped { s with skippedCount := s.skippedCount + 1 }) := by
      simp only [recordResult, Prog.bind_apply, Prog.modify_apply, hfaults, dbStep_none]
    exact ⟨_, [], heq, rfl, (List.append_nil _).symm, rfl⟩
  | verified artifacts =>
    refine ⟨(recordResult a iter feat run (.verified artifacts) s).2, [.clockRead], Prod.ext ?_ rfl,
      rfl, ?_, ?_⟩ <;>
      simp only [recordResult, Prog.bind_apply, Prog.modify_apply, agents_apply, dateNow, interact,
        hfaults, dbStep_none] <;> rfl

theorem trackCost_bills (iter : Nat) (run : Id) (us : List UsageEntry) (s : AuditState) :
    ∃ t, trackCost a iter run 0 us s = (.ok (), t) ∧ t.trace = s.trace ∧
      t.totalCost = s.totalCost + (us.map UsageEntry.cost).sum := by
  obtain ⟨cost, rows, hstate, hres⟩ := trackCost_spec a iter run us 0 s
  have hnone : ((List.range' 0 us.length).any fun k => (a.faults iter (.createUsage k)).isSome)
      = false := by
    simp [hfaults]
  simp only [hnone, Bool.false_eq_true, if_false] at hres
  exact ⟨_, Prod.ext hres.1 hstate, rfl, hres.2⟩

/-- Without faults, an iteration bills what its call returned. -/
theorem testFeature_bills (iter : Nat) (feat : Selected) (s : AuditState) :
    ∃ s' more, testFeature a iter feat s = (.ok (), s') ∧ receivedUsages more = [] ∧
      s'.trace = s.trace ++ (featureCall a feat s).2 ++ more ∧
      s'.totalCost = s.totalCost + ((billed (featureCall a feat s).1).map UsageEntry.cost).sum := by
  have htrace := featureCall_trace a feat s
  have hstart : (created a feat s).trace = s.trace := rfl
  cases hcall : executeFeatureAudit a.w (toString s.db.testRuns.length) feat.2.toAuditFeature
    a.url none s.trace with
  | mk r tr =>
  have hr : (featureCall a feat s).1 = r := by simp only [featureCall, hcall]
  rw [hcall] at htrace
  have hagents : agents (executeFeatureAudit a.w (toString s.db.testRuns.length)
      feat.2.toAuditFeature a.url none) (created a feat s)
      = (r, { created a feat s with trace := tr }) := by
    simp only [agents_apply, hstart, hcall]
  cases r with
  | error err =>
    -- a call that throws hands over no usages, so nothing is billed
    have hrun : auditFeature a iter feat s.db.testRuns.length (created a feat s)
        = (.error err, { created a feat s with trace := tr }) := Prog.bind_error hagents
    refine ⟨_, [], testFeature_error (hfaults _ _) (hfaults _ _) hrun, rfl, ?_, ?_⟩
    · rw [List.append_nil]
      exact htrace
    · simp only [hr, billed, List.map_nil, List.sum_nil, add_zero]
      rfl
  | ok result =>
    obtain ⟨t, more, hrecord, hmore, httrace, htcost⟩ := recordResult_unbilled hfaults iter feat
      s.db.testRuns.length result { created a feat s with trace := tr }
    obtain ⟨t', htrack, ht'trace, ht'cost⟩ := trackCost_bills hfaults iter s.db.testRuns.length
      result.usages t
    have hrun : auditFeature a iter feat s.db.testRuns.length (created a feat s) = (.ok (), t') := by
      rw [auditFeature, Prog.bind_ok hagents, Prog.bind_ok hrecord, htrack]
    refine ⟨t', more, testFeature_ok (hfaults _ _) hrun, hmore, ?_, ?_⟩
    · rw [ht'trace, httrace]
      exact congrArg (· ++ more) htrace
    · rw [ht'cost, htcost, hr]
      rfl

end NoFaults

/-! ## Every state in which a test starts -/

theorem sum_cost_priced {us : List Usage} (h : ∀ u ∈ us, u.cost ≠ .nan) :
    ∃ q, (us.map Usage.cost).sum = .usd q := by
  induction us with
  | nil => exact ⟨0, rfl⟩
  | cons u us ih =>
    obtain ⟨q, hq⟩ := ih (fun v hv => h v (List.mem_cons_of_mem _ hv))
    cases hu : u.cost with
    | nan => exact absurd hu (h u List.mem_cons_self)
    | usd p => exact ⟨p + q, by simp [hu, hq]⟩

theorem sum_cost_free {us : List Usage} (h : ∀ u ∈ us, u.cost = 0) :
    (us.map Usage.cost).sum = 0 := by
  induction us with
  | nil => rfl
  | cons u us ih =>
    rw [List.map_cons, List.sum_cons, h u List.mem_cons_self, zero_add,
      ih (fun v hv => h v (List.mem_cons_of_mem _ hv))]

/-- The total that the loop compares is what was spent since the start, and it
is a number. -/
structure Counts (n : Nat) (s : AuditState) : Prop where
  started : n ≤ s.trace.length
  total : s.totalCost = spentFrom n s
  number : ∃ q, s.totalCost = .usd q

theorem spentFrom_append {n : Nat} {s s' : AuditState} {es : Trace} (hn : n ≤ s.trace.length)
    (h : s'.trace = s.trace ++ es) :
    spentFrom n s' = spentFrom n s + ((receivedUsages es).map Usage.cost).sum := by
  rw [spentFrom, h, List.drop_append_of_le_length hn, receivedUsages_append, List.map_append,
    List.sum_append]
  rfl

theorem Counts.silent {n : Nat} {s s' : AuditState} (h : Counts n s) (es : Trace)
    (htrace : s'.trace = s.trace ++ es) (hes : receivedUsages es = [])
    (hcost : s'.totalCost = s.totalCost) : Counts n s' ∧ spentFrom n s' = spentFrom n s := by
  have hspent : spentFrom n s' = spentFrom n s := by
    rw [spentFrom_append h.started htrace, hes]
    simp
  refine ⟨⟨?_, ?_, ?_⟩, hspent⟩
  · rw [htrace, List.length_append]
    have := h.started
    omega
  · rw [hcost, hspent, h.total]
  · rw [hcost]
    exact h.number

/-- An iteration that loses nothing keeps the total equal to what was spent. -/
theorem Counts.iteration {a : Audit} (hfaults : ∀ i step, a.faults i step = none) {n iter : Nat}
    {feat : Selected} {s : AuditState} (h : Counts n s)
    (hcall : LosesNothing a (iter, feat, s)) :
    ∃ s', testFeature a iter feat s = (.ok (), s') ∧ Counts n s' ∧
      spentFrom n s' = spentFrom n s + callCost a (iter, feat, s) := by
  obtain ⟨s', more, hrun, hmore, htrace, hcost⟩ := testFeature_bills hfaults iter feat s
  have hspent : spentFrom n s' = spentFrom n s + callCost a (iter, feat, s) := by
    rw [List.append_assoc] at htrace
    rw [spentFrom_append h.started htrace, receivedUsages_append, hmore, List.append_nil]
    rfl
  -- what was received is what was billed, as the lost responses were free
  have hbilled : callCost a (iter, feat, s)
      = ((billed (featureCall a feat s).1).map UsageEntry.cost).sum := by
    have hacc := featureCall_accounted a feat s
    rw [Accounted, sum_cost_free hcall.free, add_zero] at hacc
    exact hacc
  refine ⟨s', hrun, ⟨?_, ?_, ?_⟩, hspent⟩
  · rw [htrace, List.length_append, List.length_append]
    have := h.started
    omega
  · rw [hcost, hspent, h.total, hbilled]
  · obtain ⟨q, hq⟩ := h.number
    obtain ⟨p, hp⟩ := sum_cost_priced hcall.priced
    refine ⟨q + p, ?_⟩
    rw [hcost, hq, ← hbilled]
    exact congrArg (Cost.usd q + ·) hp

/-- Where a test starts, the total is below the ceiling. -/
theorem withinBudget_below {a : Audit} {feat : Selected} {s s' : AuditState}
    (h : withinBudget a feat s = (.ok true, s')) {q : ℚ} (hq : s'.totalCost = .usd q) :
    q < a.maxCost := by
  have hgo : (withinBudget a feat s).1 = .ok true := by rw [h]
  have hs' : (withinBudget a feat s).2 = s' := by rw [h]
  have hcost : s'.totalCost = s.totalCost := by
    rw [← hs']
    rfl
  simp only [withinBudget, Prog.bind_apply, Prog.modify_apply, agents_apply, dateNow, interact,
    Prog.get_apply, Prog.pure_apply, Except.ok.injEq, Bool.and_eq_true, Bool.not_eq_true'] at hgo
  -- a total that is `NaN` would pass this comparison; hence the hypothesis `hq`
  have hle := hgo.2
  rw [← hcost, hq] at hle
  simpa [Cost.atLeast] using hle

/-- From a state where the total is what was spent, over the rest of the loop. -/
theorem auditLoop_ceiling {a : Audit} (hfaults : ∀ i step, a.faults i step = none) (n : Nat)
    (feats : List Selected) :
    ∀ (iter : Nat) (s : AuditState), Counts n s →
      (∀ x ∈ tested a iter feats s, LosesNothing a x) →
      (∀ x ∈ tested a iter feats s, Below (spentFrom n x.2.2) a.maxCost) ∧
        (spentFrom n (auditLoop a iter feats s).2 = spentFrom n s ∨
          ∃ x ∈ tested a iter feats s, spentFrom n (auditLoop a iter feats s).2
            = spentFrom n x.2.2 + callCost a x) := by
  induction feats with
  | nil => intro iter s _ _; exact ⟨by simp [tested], .inl rfl⟩
  | cons feat rest ih =>
    intro iter s hs hcalls
    obtain ⟨hcounts₁, hspent₁⟩ : Counts n (checked feat s) ∧
        spentFrom n (checked feat s) = spentFrom n s :=
      hs.silent [.clockRead] rfl rfl rfl
    obtain ⟨s₂, more, hrun, -⟩ := testFeature_bills hfaults iter feat (checked feat s)
    rcases auditLoop_cases rest hrun with ⟨hloop, htested⟩ | ⟨hgo, hloop, htested⟩
    · rw [hloop, htested]
      exact ⟨(fun _ hx => absurd hx List.not_mem_nil), .inl hspent₁⟩
    · rw [htested] at hcalls ⊢
      rw [hloop]
      obtain ⟨s₃, hrun₃, hcounts₂, hspent₂⟩ :=
        hcounts₁.iteration hfaults (hcalls _ List.mem_cons_self)
      obtain rfl : s₂ = s₃ := congrArg Prod.snd (hrun.symm.trans hrun₃)
      obtain ⟨hbelow, hlast⟩ := ih (iter + 1) s₂ hcounts₂
        (fun x hx => hcalls x (List.mem_cons_of_mem _ hx))
      refine ⟨?_, ?_⟩
      · intro x hx
        rcases List.mem_cons.mp hx with rfl | hx
        · obtain ⟨q, hq⟩ := hcounts₁.number
          exact ⟨q, by rw [← hcounts₁.total, hq], withinBudget_below hgo hq⟩
        · exact hbelow x hx
      · -- either the rest of the loop spent nothing, and this test was the last to spend, or a
        -- later one was
        rcases hlast with hlast | ⟨x, hx, hlast⟩
        · exact .inr ⟨_, List.mem_cons_self, hlast.trans hspent₂⟩
        · exact .inr ⟨x, List.mem_cons_of_mem _ hx, hlast⟩

/-- **Audit cost ceiling.** In an audit whose calls lose only free responses,
the money spent is below `maxCost` whenever a feature's test starts, and what
is spent in the end exceeds the amount at the start of one test by the cost of
that test's call. -/
theorem audit_ceiling {a : Audit} (hfaults : ∀ i step, a.faults i step = none)
    (hmax : 0 < a.maxCost) (feats : List Selected) (db : Db) (trace : Trace)
    (hcalls : ∀ x ∈ tested a 0 feats (.start db trace), LosesNothing a x) :
    (∀ x ∈ tested a 0 feats (.start db trace), Below (spentFrom trace.length x.2.2) a.maxCost) ∧
      (Below (spentFrom trace.length (auditLoop a 0 feats (.start db trace)).2) a.maxCost ∨
        ∃ x ∈ tested a 0 feats (.start db trace), Below (spentFrom trace.length x.2.2) a.maxCost ∧
          spentFrom trace.length (auditLoop a 0 feats (.start db trace)).2
            = spentFrom trace.length x.2.2 + callCost a x) := by
  have hzero : spentFrom trace.length (.start db trace) = 0 := by
    simp [spentFrom, AuditState.start]
  have hstart : Counts trace.length (.start db trace) := ⟨le_refl _, hzero.symm, 0, rfl⟩
  obtain ⟨hbelow, hlast⟩ := auditLoop_ceiling hfaults trace.length feats 0 _ hstart hcalls
  refine ⟨hbelow, ?_⟩
  rcases hlast with hlast | ⟨x, hx, hlast⟩
  · exact .inl ⟨0, by rw [hlast, hzero]; rfl, hmax⟩
  · exact .inr ⟨x, hx, hbelow x hx, hlast⟩

/-- Four features at 75 cents each, with 2 USD to spend. -/
def dearAudit : Audit := { calmAudit fun _ _ => none with w := dearWorld }

def dearFeatures : List Selected := [(0, loginButton), (1, loginButton), (2, loginButton), (3, loginButton)]

def dearStart : AuditState := .start { Db.empty with features := dearFeatures.map Prod.snd } []

/-- Three tests start, at 0, 75 and 150 cents; the third one exceeds the ceiling, and
the fourth is left out. -/
theorem dearAudit_ceiling :
    (∀ x ∈ tested dearAudit 0 dearFeatures dearStart, LosesNothing dearAudit x) ∧
    (tested dearAudit 0 dearFeatures dearStart).map (fun x => spentFrom 0 x.2.2)
      = [.usd 0, .usd (3 / 4), .usd (3 / 2)] ∧
    (∀ x ∈ tested dearAudit 0 dearFeatures dearStart, Below (spentFrom 0 x.2.2) 2) ∧
    spentFrom 0 (auditLoop dearAudit 0 dearFeatures dearStart).2 = .usd (9 / 4) ∧
    ∃ x ∈ tested dearAudit 0 dearFeatures dearStart, Below (spentFrom 0 x.2.2) 2 ∧
      spentFrom 0 (auditLoop dearAudit 0 dearFeatures dearStart).2
        = spentFrom 0 x.2.2 + callCost dearAudit x := by
  have hcalls : ∀ x ∈ tested dearAudit 0 dearFeatures dearStart, LosesNothing dearAudit x := by
    have hall : ∀ x ∈ tested dearAudit 0 dearFeatures dearStart,
        (∀ u ∈ receivedUsages (featureCall dearAudit x.2.1 x.2.2).2, u.cost ≠ .nan) ∧
        ∀ u ∈ lostResponses (featureCall dearAudit x.2.1 x.2.2).1
          (featureCall dearAudit x.2.1 x.2.2).2, u.cost = 0 := by
      decide +kernel
    exact fun x hx => ⟨(hall x hx).1, (hall x hx).2⟩
  have hspent : spentFrom 0 (auditLoop dearAudit 0 dearFeatures dearStart).2 = .usd (9 / 4) := by
    decide +kernel
  obtain ⟨hstarts, hend⟩ := audit_ceiling (a := dearAudit) (fun _ _ => rfl) (by decide +kernel)
    dearFeatures { Db.empty with features := dearFeatures.map Prod.snd } [] hcalls
  refine ⟨hcalls, by decide +kernel, hstarts, hspent, hend.resolve_left ?_⟩
  rintro ⟨q, hq, hlt⟩
  cases hspent.symm.trans hq
  exact absurd hlt (by decide +kernel)

/-- Gemini answers with a million tokens and never calls a tool, so that every
agent run is aborted after ten turns. -/
def chattyAudit : Audit :=
  { calmAudit fun _ _ => none with
    w := { World.calm with
      gemini := fun _ _ => .ok ⟨some "Let me think.", none, some 1000000, some 1000000⟩ } }

/-- The first feature's aborted run cost 3.75 USD, and the second one starts. -/
theorem chattyAudit_exceeds_ceiling :
    ∃ x ∈ tested chattyAudit 0 [(0, loginButton), (1, loginButton)]
      (.start { loginDb with features := [loginButton, loginButton] } []),
      ¬ Below (spentFrom 0 x.2.2) chattyAudit.maxCost := by
  have hspent : (tested chattyAudit 0 [(0, loginButton), (1, loginButton)]
      (.start { loginDb with features := [loginButton, loginButton] } [])).map
        (fun x => spentFrom 0 x.2.2) = [.usd 0, .usd (15 / 4)] := by
    decide +kernel
  have hmem : Cost.usd (15 / 4) ∈ (tested chattyAudit 0 [(0, loginButton), (1, loginButton)]
      (.start { loginDb with features := [loginButton, loginButton] } [])).map
        (fun x => spentFrom 0 x.2.2) := by
    simp [hspent]
  obtain ⟨x, hx, hcost⟩ := List.mem_map.mp hmem
  refine ⟨x, hx, ?_⟩
  rintro ⟨q, hq, hlt⟩
  rw [hcost] at hq
  cases hq
  exact absurd hlt (by decide +kernel)

end AutoQa.Cli
