import CaseRegistry.Proofs.Case.Continuity
import CaseRegistry.Proofs.Case.Delivery

/-! What the creation of a case by the ledger settles.

The creation stamp accepts a request that is waiting at that moment. A case that was waiting or in
force when the ledger created it is in force ever after, so that its owner cannot reject it any
more. One that was a draft or rejected then waits for the owner again if it is submitted after that
(`requested_once_created`), and only then (`creation_settles_request`). -/
namespace CaseRegistry.Case

variable {c c' : Case} {op : CaseOperation} {ops : List CaseOperation}

/-! ### One operation -/

theorem Becomes.creates (h : c.Becomes op c') (fresh : c.createdOn = none)
    (created : c'.createdOn.isSome) : ∃ on, op = .setCreatedDate on := by
  cases h with
  | create | createRequested => exact ⟨_, rfl⟩
  | _ =>
    have before : c.createdOn.isSome := created
    simp [fresh] at before

/-- Only submitting makes a case wait for its owner. -/
theorem Becomes.requested (h : c.Becomes op c') (waits : c'.status = .requested) :
    c.status = .requested ∨ op = .submit := by
  cases h with
  | submit => exact .inr rfl
  | accept | reject | rework | createRequested | preClose | close => cases waits
  | _ => exact .inl waits

theorem run_create (fresh : c.createdOn = none) (on : Timestamp) :
    let later := ((Case.apply (.setCreatedDate on)).run c).2
    later.createdOn = some on ∧
      later.status = if c.status = .requested then .opened else c.status := by
  intro later
  have ran : later = if c.status = .requested then
        { c with createdOn := some on, status := .opened, decisionOn := some on }
      else { c with createdOn := some on } := by
    show ((setCreatedDate on >>= fun outcome => pure (CaseReply.outcome outcome)).run c).2 = _
    rw [Action.run_bind_pure, run_setCreatedDate, if_neg (by simp [fresh])]
    split <;> rfl
  rw [ran]
  split <;> exact ⟨rfl, rfl⟩

/-- A creation leaves no request waiting. -/
theorem not_requested_of_create (fresh : c.createdOn = none) (on : Timestamp) :
    ((Case.apply (.setCreatedDate on)).run c).2.status ≠ .requested := by
  rw [(run_create fresh on).2]
  split
  · nofun
  · next other => exact other

theorem inForce_of_create (fresh : c.createdOn = none) (settled : c.status = .requested ∨ c.IsInForce)
    (on : Timestamp) : ((Case.apply (.setCreatedDate on)).run c).2.IsInForce := by
  unfold IsInForce
  rw [(run_create fresh on).2]
  split
  · exact .inl rfl
  · next other => exact settled.resolve_left other

/-- Only a case that waits for its owner is rejected. -/
theorem requested_of_reject {reason : String} {on : Timestamp} (h : c.Succeeds (.reject reason on)) :
    c.status = .requested := by
  obtain ⟨_, done⟩ := isOk_silently.mp h
  obtain ⟨_, allowed, _⟩ := bind_eq_ok.mp done
  exact List.mem_singleton.mp (ensureStatus_eq_ok.mp allowed)

/-! ### Runs -/

theorem IsInForce.after (h : c.IsInForce) (ops : List CaseOperation) : (c.after ops).IsInForce := by
  -- No operation is excluded: each one leaves a case in force.
  have all : c.Spares (fun _ => False) ops := spares_of_forall fun _ _ => not_false
  exact all.keeps (P := IsInForce) (fun _ inForce => (apply_continues _ _).inForce inForce) h

/-- A case that is not waiting does not wait until it is submitted. -/
theorem Spares.not_requested (spares : c.Spares (· = .submit) ops) (h : c.status ≠ .requested) :
    (c.after ops).status ≠ .requested :=
  spares.keeps (P := (·.status ≠ .requested))
    (fun {c op} other idle waits => ((apply_becomes op c).requested waits).elim idle other) h

/-- What is created in the end was created on the way. -/
theorem split_at_creation (fresh : c.createdOn = none) (created : (c.after ops).createdOn.isSome) :
    ∃ before on since, ops = before ++ .setCreatedDate on :: since ∧
      (c.after before).createdOn = none := by
  induction ops generalizing c with
  | nil => exact absurd created (by simp [after, fresh])
  | cons op rest ih =>
    by_cases now : ((Case.apply op).run c).2.createdOn.isSome
    · obtain ⟨on, rfl⟩ := (apply_becomes op c).creates fresh now
      exact ⟨[], on, rest, rfl, fresh⟩
    · obtain ⟨before, on, since, rfl, still⟩ := ih (Option.not_isSome_iff_eq_none.mp now) created
      exact ⟨op :: before, on, since, rfl, still⟩

theorem IsNew.createdOn (h : c.IsNew) : c.createdOn = none := by
  obtain ⟨d, made | made | ⟨on, made⟩⟩ := h
  · rw [(build_eq_ok made).fresh]
  · rw [(build_eq_ok made).fresh]
  · simp only [Case.openNew, bind_eq_ok, pure_eq_ok] at made
    obtain ⟨c, made, rfl⟩ := made
    rw [(build_eq_ok made).fresh]

theorem after_split (c : Case) (before since : List CaseOperation) (op : CaseOperation) :
    c.after (before ++ op :: since) = (c.after (before ++ [op])).after since := by
  simp [after, List.foldl_append]

/-- Whatever is done to a case after it is made, if the ledger has created it, it did so at some point
on the way. If the case was waiting for its owner or in force at that point, it is in force; so, or
if it was not submitted since, it is not waiting for its owner, who cannot reject it. -/
theorem creation_settles_request {made : Case} (new : made.IsNew) (ops : List CaseOperation)
    (created : (made.after ops).createdOn.isSome) :
    ∃ before on since, ops = before ++ .setCreatedDate on :: since ∧
      let c := made.after before
      let later := made.after (before ++ [.setCreatedDate on])
      c.createdOn = none ∧ later.createdOn = some on ∧
        (c.status = .requested ∨ c.IsInForce → (made.after ops).IsInForce) ∧
        (c.status = .requested ∨ c.IsInForce ∨ later.Spares (· = .submit) since →
          (made.after ops).status ≠ .requested ∧
            ∀ reason at', ¬(made.after ops).Succeeds (.reject reason at')) := by
  obtain ⟨before, on, since, rfl, fresh⟩ := split_at_creation new.createdOn created
  refine ⟨before, on, since, rfl, ?_⟩
  intro c later
  have stamped : later = ((Case.apply (.setCreatedDate on)).run c).2 := by
    simp [later, c, after, List.foldl_append]
  have inForce : c.status = .requested ∨ c.IsInForce →
      (made.after (before ++ .setCreatedDate on :: since)).IsInForce := fun settled => by
    have standing : later.IsInForce := stamped ▸ inForce_of_create fresh settled on
    rw [after_split]
    exact standing.after since
  refine ⟨fresh, stamped ▸ (run_create fresh on).1, inForce, fun settled => ?_⟩
  have idle : (made.after (before ++ .setCreatedDate on :: since)).status ≠ .requested := by
    rcases settled with waiting | standing | spared
    · rcases inForce (.inl waiting) with status | status <;> simp [status]
    · rcases inForce (.inr standing) with status | status <;> simp [status]
    · rw [after_split]
      exact spared.not_requested (stamped ▸ not_requested_of_create fresh on)
  exact ⟨idle, fun reason at' success => idle (requested_of_reject success)⟩

end CaseRegistry.Case

/-! ### Prints that the ledger knows before their owner does -/

namespace CaseRegistry

namespace Sample

/-- The request waits when the ledger creates the case; after that nobody can hand it in again. -/
def printsCreatedInTime : List CaseOperation :=
  [.submit, .setCreatedDate .epoch, .submit, .preClose, .reject "late" .epoch]

/-- The ledger creates the case while it is a draft, which is then handed in. -/
def printsCreatedEarly : List CaseOperation := [.setCreatedDate .epoch, .submit]

/-- The ledger creates the case once it is rejected; it is then worked over and handed in again. -/
def printsCreatedAgainst : List CaseOperation :=
  [.submit, .reject "incomplete" .epoch, .setCreatedDate .epoch, .rework, .submit]

end Sample

namespace Case

theorem creation_settles_prints :
    ∃ made, Case.draft Sample.prints = .ok made ∧
      let c := made.after Sample.printsCreatedInTime
      c.createdOn.isSome ∧ (made.after [.submit]).status = .requested ∧ c.IsInForce ∧
        c.status ≠ .requested ∧ ∀ reason on, ¬c.Succeeds (.reject reason on) := by
  refine ⟨_, rfl, ?_⟩
  intro c
  have created : c.createdOn.isSome := by decide +kernel +zetaReduce
  obtain ⟨before, on, since, split, _, _, inForce, settled⟩ :=
    creation_settles_request ⟨Sample.prints, .inl rfl⟩ Sample.printsCreatedInTime created
  have point : before = [.submit] := by
    rcases before with _ | ⟨_, _ | ⟨_, _ | ⟨_, _ | ⟨_, _ | ⟨_, _⟩⟩⟩⟩⟩ <;>
      simp_all [Sample.printsCreatedInTime]
  subst point
  exact ⟨created, by decide +kernel, inForce (.inl (by decide +kernel)),
    settled (.inl (by decide +kernel))⟩

/-- A case that the ledger created as a draft, or after a rejection, waits for its owner once it is
submitted, and can be rejected. -/
theorem requested_once_created :
    ∃ made, Case.draft Sample.prints = .ok made ∧
      ∀ history ∈ [Sample.printsCreatedEarly, Sample.printsCreatedAgainst],
        let c := made.after history
        c.Reachable ∧ c.status = .requested ∧ c.createdOn = some .epoch ∧
          c.Succeeds (.reject "late" .epoch) := by
  refine ⟨_, rfl, ?_⟩
  intro history mem c
  have reachable : c.Reachable := (Case.Reachable.draft (d := Sample.prints) rfl).after history
  refine ⟨reachable, ?_⟩
  simp only [List.mem_cons, List.not_mem_nil, or_false] at mem
  rcases mem with rfl | rfl
  · decide +kernel +zetaReduce
  · decide +kernel +zetaReduce

end Case
end CaseRegistry
