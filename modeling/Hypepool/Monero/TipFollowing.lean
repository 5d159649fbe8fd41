import Hypepool.Monero.JobPublication

/-!
# Whether the pool works on the daemon's tip

`UpdateJob` takes a template for a new block when its height is above the current job's.  So a
different block at the same height, or at a lower one, goes unnoticed:

* `onTip_run_iff`: a run stays on the daemon's tip exactly when every good template that changes
  the tip also raises the height.
-/

namespace Hypepool.MoneroJobManager

open Base

/-- An answer without an error and with a template whose job can be constructed. -/
structure Good [CurrentCulture] (answer : TemplateAnswer) (template : GetBlockTemplateResponse) :
    Prop where
  noError : ∃ response, answer = .ok (some response) ∧ response.error = none
  served : served answer = some template
  constructible : MoneroJob.Constructible template

/-- After the poll the current job builds on the block the answer's template builds on. -/
def OnTip [CurrentCulture] (manager : MoneroJobManager) (answer : TemplateAnswer) : Prop :=
  ∀ template, Good answer template →
    ∃ job, (updateJob manager answer).2.currentJob = some job ∧
      job.blockTemplate.previousBlockhash = template.previousBlockhash

/-- A template on another block than the current job's is above the current job. -/
def RaisesHeight [CurrentCulture] (manager : MoneroJobManager) (answer : TemplateAnswer) : Prop :=
  ∀ template, Good answer template → ∀ current, manager.currentJob = some current →
    current.blockTemplate.height < template.height ∨
      current.blockTemplate.previousBlockhash = template.previousBlockhash

section Step

variable [CurrentCulture] {manager : MoneroJobManager} {answer : TemplateAnswer}

/-- One poll ends on the tip exactly when a change of the tip raises the height. -/
theorem onTip_iff : OnTip manager answer ↔ RaisesHeight manager answer := by
  by_cases adoptable : Adoptable manager answer
  · rcases updateJob_of_adoptable adoptable with ⟨template, job, present, newer, made, result⟩
    have same : job.blockTemplate = template :=
      (Option.some.inj (MoneroJob.new_eq_ok made).1).symm
    have onTip : OnTip manager answer := by
      intro template' good
      have isTemplate : template' = template :=
        Option.some.inj (good.served.symm.trans present)
      refine ⟨job, by rw [result], ?_⟩
      rw [same, isTemplate]
    have raises : RaisesHeight manager answer := by
      intro template' good current isCurrent
      have isTemplate : template' = template :=
        Option.some.inj (good.served.symm.trans present)
      exact Or.inl (isTemplate ▸ newer current isCurrent)
    exact ⟨fun _ => raises, fun _ => onTip⟩
  · rcases updateJob_of_not_adoptable adoptable with ⟨counter, _, result⟩
    unfold OnTip RaisesHeight
    rw [result]
    constructor
    · intro onTip template good current isCurrent
      rcases onTip template good with ⟨job, isJob, sameBlock⟩
      have same : job = current := Option.some.inj (isJob.symm.trans isCurrent)
      exact Or.inr (same ▸ sameBlock)
    · intro raises template good
      cases isCurrent : manager.currentJob with
      | none =>
          have newer : Newer manager template := by
            intro current isSome
            rw [isCurrent] at isSome
            cases isSome
          exact (adoptable ⟨template, good.served, good.constructible, newer⟩).elim
      | some current =>
          rcases raises template good current isCurrent with above | sameBlock
          · have newer : Newer manager template := by
              intro job isSome
              cases Option.some.inj (isSome.symm.trans isCurrent)
              exact above
            exact (adoptable ⟨template, good.served, good.constructible, newer⟩).elim
          · exact ⟨current, rfl, sameBlock⟩

end Step

/-- **Following the tip.**  Over any sequence of answers, every poll with a good template ends on
that template's block if and only if every good template on another block than the current job's
is above it. -/
theorem onTip_run_iff [CurrentCulture] (instanceId : InstanceId) (answers : List TemplateAnswer) :
    Along updateJob OnTip (start instanceId) answers ↔
      Along updateJob RaisesHeight (start instanceId) answers :=
  along_iff_of_carried (fun _ => True) (fun _ _ _ => onTip_iff) (fun _ _ _ _ => trivial) trivial

/-- A block template at height 1088295 on the given block. -/
def template1088295 (previousBlockhash : String) : GetBlockTemplateResponse where
  blob := some (text "07079ccdc1d3053b0000000000000000")
  height := 1088295
  previousBlockhash := some (text previousBlockhash)
  reservedOffset := 8

/-- The daemon's answer with that template. -/
def answer1088295 (previousBlockhash : String) : TemplateAnswer :=
  .ok (some { response := some (template1088295 previousBlockhash) })

section Samples

open OrdinalCulture

/-- A block template for another block at the same height is not taken up. -/
theorem reorganisation_at_same_height_missed :
    ¬ Along updateJob OnTip (start ⟨[1, 2, 3], rfl⟩)
      [answer1088295 "3b4aff4f", answer1088295 "a6a0d384"] := by
  intro along
  have good : Good (answer1088295 "a6a0d384") (template1088295 "a6a0d384") :=
    ⟨⟨_, rfl, rfl⟩, rfl, by decide +kernel⟩
  rcases along.2.1 _ good with ⟨job, isJob, onTip⟩
  have kept : ((updateJob (updateJob (start ⟨[1, 2, 3], rfl⟩) (answer1088295 "3b4aff4f")).2
      (answer1088295 "a6a0d384")).2.currentJob.map (·.blockTemplate.previousBlockhash)) =
      some (some (text "3b4aff4f")) := by
    decide +kernel
  rw [isJob, Option.map_some, onTip] at kept
  revert kept
  decide +kernel

end Samples

end Hypepool.MoneroJobManager
