import Hypepool.Monero.MoneroJobManager

/-!
# The jobs a run of polls publishes

* `updateJob_publishes`: over any sequence of answers the published jobs are those of the
  constructible templates above every height published before, the current job is the last of
  them, and their ids count upwards.
-/

namespace Hypepool.MoneroJobManager

open Base

/-- A new job manager. -/
def start (instanceId : InstanceId) : MoneroJobManager := { instanceId }

/-- The non-null results of a run, in order. -/
def published [CurrentCulture] (manager : MoneroJobManager) (answers : List TemplateAnswer) :
    List MoneroJob :=
  (outputs updateJob manager answers).flatMap Option.toList

/-- What ties a job manager to the jobs it has published. -/
structure Publishing (instanceId : InstanceId) (jobs : List MoneroJob)
    (manager : MoneroJobManager) : Prop where
  instanceId : manager.instanceId = instanceId
  current : manager.currentJob = jobs.getLast?
  rising : jobs.Pairwise fun a b => a.blockTemplate.height < b.blockTemplate.height

section Step

variable {instanceId : InstanceId} {jobs : List MoneroJob} {manager : MoneroJobManager}
  {answer : TemplateAnswer} {template : GetBlockTemplateResponse}

/-- The current job is the highest published one, so that a newer template is above them all. -/
theorem Publishing.newer_iff (publishing : Publishing instanceId jobs manager) :
    Newer manager template ↔ ∀ job ∈ jobs, job.blockTemplate.height < template.height := by
  have rising := publishing.rising
  unfold Newer
  rw [publishing.current]
  rcases List.eq_nil_or_concat jobs with rfl | ⟨front, last, rfl⟩
  · exact ⟨fun _ _ member => (nomatch member), fun _ _ none => (nomatch none)⟩
  · rw [List.concat_eq_append] at rising ⊢
    rw [List.getLast?_append_of_ne_nil _ (List.cons_ne_nil last []), List.getLast?_singleton]
    have below := (List.pairwise_append.mp rising).2.2
    constructor
    · intro newer job member
      have above := newer last rfl
      rcases List.mem_append.mp member with inFront | isLast
      · exact UInt32.lt_trans (below job inFront last (List.mem_singleton_self last)) above
      · exact List.mem_singleton.mp isLast ▸ above
    · intro above current isLast
      cases Option.some.inj isLast
      exact above last (List.mem_append_right front (List.mem_singleton_self last))

variable [CurrentCulture]

/-- One poll keeps the tie, whatever it returns. -/
theorem Publishing.step (publishing : Publishing instanceId jobs manager) :
    Publishing instanceId (jobs ++ (updateJob manager answer).1.toList)
      (updateJob manager answer).2 := by
  by_cases adoptable : Adoptable manager answer
  · rcases updateJob_of_adoptable adoptable with ⟨template, job, _, newer, made, result⟩
    have same : job.blockTemplate = template :=
      (Option.some.inj (MoneroJob.new_eq_ok made).1).symm
    rw [result]
    refine ⟨publishing.instanceId, ?_, ?_⟩
    · rw [Option.toList_some, List.getLast?_append_of_ne_nil _ (List.cons_ne_nil job [])]
      rfl
    · refine List.pairwise_append.mpr ⟨publishing.rising, List.pairwise_singleton _ job, ?_⟩
      intro earlier member last isJob
      rw [List.mem_singleton.mp isJob, same]
      exact publishing.newer_iff.mp newer earlier member
  · rcases updateJob_of_not_adoptable adoptable with ⟨counter, _, result⟩
    rw [result, Option.toList_none, List.append_nil]
    exact ⟨publishing.instanceId, publishing.current, publishing.rising⟩

/-- The ids of the jobs published in the first `calls` polls of a job manager. -/
structure Numbering (calls : Nat) (jobs : List MoneroJob) (manager : MoneroJobManager) :
    Prop where
  lower : 0 ≤ manager.jobCounter.last
  upper : manager.jobCounter.last ≤ calls
  used : ∀ job ∈ jobs, 0 < job.id ∧ job.id ≤ manager.jobCounter.last
  rising : jobs.Pairwise fun a b => a.id < b.id

theorem Numbering.step {calls : Nat} (numbering : Numbering calls jobs manager)
    (room : (calls : Int) < JobCounter.maxValue) :
    Numbering (calls + 1) (jobs ++ (updateJob manager answer).1.toList)
      (updateJob manager answer).2 := by
  rcases numbering with ⟨lower, upper, used, rising⟩
  have next := JobCounter.getNext_of_lt lower (Int.lt_of_le_of_lt upper room)
  by_cases adoptable : Adoptable manager answer
  · rcases updateJob_of_adoptable adoptable with ⟨template, job, _, _, made, result⟩
    have id : job.id = manager.jobCounter.last + 1 := by
      rw [(MoneroJob.new_eq_ok made).2.1, next]
    rw [result, next]
    refine ⟨?_, ?_, ?_, List.pairwise_append.mpr ⟨rising, List.pairwise_singleton _ job, ?_⟩⟩
    · simp only
      omega
    · simp only
      omega
    · intro other member
      rcases List.mem_append.mp member with earlier | isJob
      · have bounds := used other earlier
        exact ⟨bounds.1, by simp only; omega⟩
      · cases List.mem_singleton.mp isJob
        exact ⟨by omega, by simp only; omega⟩
    · intro earlier member last isJob
      have bounds := used earlier member
      rw [List.mem_singleton.mp isJob]
      omega
  · rcases updateJob_of_not_adoptable adoptable with ⟨counter, moved, result⟩
    rw [result, Option.toList_none, List.append_nil]
    rcases moved with rfl | rfl
    · exact ⟨lower, by simp only; omega, used, rising⟩
    · rw [next]
      refine ⟨by simp only; omega, by simp only; omega, ?_, rising⟩
      intro job member
      have bounds := used job member
      exact ⟨bounds.1, by simp only; omega⟩

end Step

/-! ## Runs -/

theorem publishing_run [CurrentCulture] (instanceId : InstanceId) (answers : List TemplateAnswer) :
    Publishing instanceId (published (start instanceId) answers)
      (finalState updateJob (start instanceId) answers) := by
  have fresh : Publishing instanceId [] (start instanceId) := ⟨rfl, rfl, List.Pairwise.nil⟩
  have run : Publishing instanceId ([] ++ published (start instanceId) answers)
      (finalState updateJob (start instanceId) answers) :=
    emitted_invariant (Publishing instanceId) Option.toList
      (fun _ _ _ publishing => publishing.step) fresh
  rwa [List.nil_append] at run

/-- The induction is on the polls; every one of them draws at most one id. -/
theorem numbering_run [CurrentCulture] {calls : Nat} {jobs : List MoneroJob}
    {manager : MoneroJobManager} (answers : List TemplateAnswer)
    (numbering : Numbering calls jobs manager)
    (room : (calls + answers.length : Nat) ≤ JobCounter.maxValue) :
    Numbering (calls + answers.length) (jobs ++ published manager answers)
      (finalState updateJob manager answers) := by
  induction answers generalizing calls jobs manager with
  | nil =>
      rw [published, outputs_nil, List.flatMap_nil, List.append_nil]
      exact numbering
  | cons answer answers ih =>
      rw [List.length_cons] at room
      have shape : calls + (answer :: answers).length = calls + 1 + answers.length := by
        rw [List.length_cons]; omega
      rw [shape, published, outputs_cons, List.flatMap_cons, ← List.append_assoc]
      exact ih (numbering.step (by omega)) (by omega)

/-- **Job publication.**  Whatever the daemon answers, a poll returns a job exactly when its answer
carries a constructible template above the height of every job returned before, and then it returns
that template's job and makes it the current one; any other poll keeps the current job.  So the
current job is the last one returned, and while polls are fewer than `int.MaxValue` their ids are
positive and rise. -/
theorem updateJob_publishes [CurrentCulture] (instanceId : InstanceId)
    (answers : List TemplateAnswer) :
    (∀ before answer after, answers = before ++ answer :: after →
      let manager := finalState updateJob (start instanceId) before
      ((updateJob manager answer).1.isSome ↔ ∃ template, served answer = some template ∧
        MoneroJob.Constructible template ∧ ∀ job ∈ published (start instanceId) before,
          job.blockTemplate.height < template.height) ∧
      (∀ job, (updateJob manager answer).1 = some job →
        served answer = some job.blockTemplate ∧
        MoneroJob.new job.id (some job.blockTemplate) instanceId = .ok job ∧
        (updateJob manager answer).2.currentJob = some job) ∧
      ((updateJob manager answer).1 = none →
        (updateJob manager answer).2.currentJob = manager.currentJob)) ∧
    (finalState updateJob (start instanceId) answers).currentJob =
      (published (start instanceId) answers).getLast? ∧
    (published (start instanceId) answers).Pairwise
      (fun a b => a.blockTemplate.height < b.blockTemplate.height) ∧
    (answers.length < 0x7fffffff →
      (∀ job ∈ published (start instanceId) answers, 0 < job.id) ∧
      (published (start instanceId) answers).Pairwise fun a b => a.id < b.id) := by
  have whole := publishing_run instanceId answers
  refine ⟨?_, whole.current, whole.rising, ?_⟩
  · intro before answer after _ manager
    have publishing := publishing_run instanceId before
    by_cases adoptable : Adoptable manager answer
    · rcases updateJob_of_adoptable adoptable with ⟨template, job, present, newer, made, result⟩
      rcases adoptable with ⟨template', present', constructible, newer'⟩
      have same : job.blockTemplate = template :=
        (Option.some.inj (MoneroJob.new_eq_ok made).1).symm
      rw [result]
      refine ⟨⟨fun _ => ⟨template', present', constructible, publishing.newer_iff.mp newer'⟩,
        fun _ => rfl⟩, ?_, fun none => (nomatch none)⟩
      intro job' isJob
      cases Option.some.inj isJob
      rw [same]
      refine ⟨present, ?_, rfl⟩
      rw [(MoneroJob.new_eq_ok made).2.1]
      exact publishing.instanceId ▸ made
    · rcases updateJob_of_not_adoptable adoptable with ⟨counter, _, result⟩
      rw [result]
      refine ⟨⟨fun some => (nomatch some), ?_⟩, fun _ none => (nomatch none), fun _ => rfl⟩
      intro ⟨template, present, constructible, above⟩
      exact (adoptable ⟨template, present, constructible, publishing.newer_iff.mpr above⟩).elim
  · intro short
    have fresh : Numbering 0 [] (start instanceId) :=
      ⟨Int.le_refl 0, Int.le_refl 0, fun _ member => (nomatch member), List.Pairwise.nil⟩
    have numbering := numbering_run answers fresh
      (by unfold JobCounter.maxValue; omega)
    rw [List.nil_append] at numbering
    exact ⟨fun job member => (numbering.used job member).1, numbering.rising⟩

end Hypepool.MoneroJobManager
