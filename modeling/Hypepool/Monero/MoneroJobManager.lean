import Hypepool.Base.Run
import Hypepool.Common.DaemonClient
import Hypepool.Monero.MoneroJob

/-!
# `MoneroJobManager`

`UpdateJob` turns the daemon's answer to one `getblocktemplate` call into a new job or into
nothing; polls follow one another, so that a run of the job manager is a run of `updateJob` over a
list of answers.
-/

namespace Hypepool

structure MoneroJobManager where
  instanceId : InstanceId
  jobCounter : JobCounter := {}
  currentJob : Option MoneroJob := none

/-- What awaiting `ExecuteCommandAsync<GetBlockTemplateResponse>` gives: an exception, `null`, or a
response. -/
abbrev TemplateAnswer := Except NetException (Option (DaemonResponse GetBlockTemplateResponse))

namespace MoneroJobManager

/-- `_jobCounter.GetNext()`. -/
def getNextJobId : EStateM NetException MoneroJobManager Int := do
  let manager ← get
  let (jobId, jobCounter) := manager.jobCounter.getNext
  set { manager with jobCounter := jobCounter }
  return jobId

/-- `CurrentJob == null || CurrentJob.BlockTemplate.Height < blockTemplate.Height`. -/
def gotNewBlockTemplate (currentJob : Option MoneroJob)
    (blockTemplate : Option GetBlockTemplateResponse) : Except NetException Bool :=
  match currentJob with
  | none => .ok true
  | some job => do
      let blockTemplate ← deref blockTemplate
      return job.blockTemplate.height < blockTemplate.height

/-- The `try` block of `UpdateJob`.  An error in the response is logged, and nothing else. -/
def tryUpdateJob [CurrentCulture] (answer : TemplateAnswer) :
    EStateM NetException MoneroJobManager (Option MoneroJob) := do
  let response ← Base.liftExcept answer
  let response ← Base.liftExcept (deref response)
  let blockTemplate := response.response
  let manager ← get
  if ← Base.liftExcept (gotNewBlockTemplate manager.currentJob blockTemplate) then
    let jobId ← getNextJobId
    let job ← Base.liftExcept (MoneroJob.new jobId blockTemplate manager.instanceId)
    modify fun manager => { manager with currentJob := some job }
    return some job
  else return none

/-- `UpdateJob`: an exception is logged, and gives no job. -/
def updateJob [CurrentCulture] (manager : MoneroJobManager) (answer : TemplateAnswer) :
    Option MoneroJob × MoneroJobManager :=
  match (tryUpdateJob answer).run manager with
  | .ok job manager => (job, manager)
  | .error _ manager => (none, manager)

/-! ## What one poll does -/

/-- The block template an answer carries. -/
def served : TemplateAnswer → Option GetBlockTemplateResponse
  | .ok (some response) => response.response
  | _ => none

/-- A template is newer than the current job, if there is one. -/
def Newer (manager : MoneroJobManager) (template : GetBlockTemplateResponse) : Prop :=
  ∀ current, manager.currentJob = some current →
    current.blockTemplate.height < template.height

/-- The answers a poll makes a job of. -/
def Adoptable [CurrentCulture] (manager : MoneroJobManager) (answer : TemplateAnswer) : Prop :=
  ∃ template, served answer = some template ∧ MoneroJob.Constructible template ∧
    Newer manager template

section Step

variable {manager : MoneroJobManager} {answer : TemplateAnswer}
  {template : GetBlockTemplateResponse}

theorem run_getNextJobId :
    getNextJobId.run manager = .ok manager.jobCounter.getNext.1
      { manager with jobCounter := manager.jobCounter.getNext.2 } := rfl

theorem gotNewBlockTemplate_of_newer (newer : Newer manager template) :
    gotNewBlockTemplate manager.currentJob (some template) = .ok true := by
  cases current : manager.currentJob with
  | none => rfl
  | some job =>
      have above := newer job current
      unfold gotNewBlockTemplate
      simp only [deref, Base.ok_bind, above, decide_true]
      rfl

/-- The test finds nothing new, or fails, unless the template is newer or there is no template and
no job. -/
theorem newer_of_gotNewBlockTemplate {blockTemplate : Option GetBlockTemplateResponse}
    (new : gotNewBlockTemplate manager.currentJob blockTemplate = .ok true) :
    ∀ template, blockTemplate = some template → Newer manager template := by
  intro template present current exists_job
  rw [present, exists_job] at new
  unfold gotNewBlockTemplate at new
  simp only [deref, Base.ok_bind] at new
  exact of_decide_eq_true (Except.ok.inj new)

variable [CurrentCulture]

/-- The branches of the `try` block on a response. -/
theorem run_tryUpdateJob {response : DaemonResponse GetBlockTemplateResponse} :
    (tryUpdateJob (.ok (some response))).run manager =
      match gotNewBlockTemplate manager.currentJob response.response with
      | .error exception => .error exception manager
      | .ok false => .ok none manager
      | .ok true =>
          match MoneroJob.new manager.jobCounter.getNext.1 response.response
              manager.instanceId with
          | .error exception =>
              .error exception { manager with jobCounter := manager.jobCounter.getNext.2 }
          | .ok job => .ok (some job) { manager with
              jobCounter := manager.jobCounter.getNext.2
              currentJob := some job } := by
  unfold tryUpdateJob
  rw [Base.run_bind_of_ok Base.run_liftExcept_ok, deref,
    Base.run_bind_of_ok Base.run_liftExcept_ok, Base.run_bind_of_ok (EStateM.run_get manager)]
  cases gotNewBlockTemplate manager.currentJob response.response with
  | error exception => exact Base.run_bind_of_error Base.run_liftExcept_error
  | ok new =>
      rw [Base.run_bind_of_ok Base.run_liftExcept_ok]
      cases new with
      | false => rfl
      | true =>
          rw [if_pos rfl, Base.run_bind_of_ok run_getNextJobId]
          cases MoneroJob.new manager.jobCounter.getNext.1 response.response manager.instanceId with
          | error exception => exact Base.run_bind_of_error Base.run_liftExcept_error
          | ok job => rfl

theorem updateJob_eq {result : Option MoneroJob} {after : MoneroJobManager}
    (run : (tryUpdateJob answer).run manager = .ok result after) :
    updateJob manager answer = (result, after) := by
  rw [updateJob, run]

theorem updateJob_of_exception (exception : NetException) {after : MoneroJobManager}
    (run : (tryUpdateJob answer).run manager = .error exception after) :
    updateJob manager answer = (none, after) := by
  rw [updateJob, run]

/-- An adoptable answer becomes the current job, and uses up one job id. -/
theorem updateJob_of_adoptable (adoptable : Adoptable manager answer) :
    ∃ template job, served answer = some template ∧ Newer manager template ∧
      MoneroJob.new manager.jobCounter.getNext.1 (some template) manager.instanceId = .ok job ∧
      updateJob manager answer = (some job,
        { manager with jobCounter := manager.jobCounter.getNext.2, currentJob := some job }) := by
  obtain ⟨template, present, constructible, newer⟩ := adoptable
  have exists_job : ∃ job, MoneroJob.new manager.jobCounter.getNext.1 (some template)
      manager.instanceId = .ok job := MoneroJob.exists_new_iff.mpr constructible
  obtain ⟨job, made⟩ := exists_job
  refine ⟨template, job, present, newer, made, ?_⟩
  cases answer with
  | error exception => cases present
  | ok response =>
      cases response with
      | none => cases present
      | some response =>
          have carried : response.response = some template := present
          apply updateJob_eq
          rw [run_tryUpdateJob, carried, gotNewBlockTemplate_of_newer newer]
          simp only [made]

/-- Any other answer gives no job and keeps the current one; it may use up a job id. -/
theorem updateJob_of_not_adoptable (refused : ¬ Adoptable manager answer) :
    ∃ counter, (counter = manager.jobCounter ∨ counter = manager.jobCounter.getNext.2) ∧
      updateJob manager answer = (none, { manager with jobCounter := counter }) := by
  cases answer with
  | error exception =>
      exact ⟨_, Or.inl rfl, updateJob_of_exception _ (Base.run_bind_of_error rfl)⟩
  | ok response =>
      cases response with
      | none =>
          exact ⟨_, Or.inl rfl, updateJob_of_exception _
            ((Base.run_bind_of_ok rfl).trans (Base.run_bind_of_error rfl))⟩
      | some response =>
          cases new : gotNewBlockTemplate manager.currentJob response.response with
          | error exception =>
              refine ⟨_, Or.inl rfl, updateJob_of_exception exception ?_⟩
              rw [run_tryUpdateJob, new]
          | ok new' =>
              cases new' with
              | false =>
                  refine ⟨_, Or.inl rfl, updateJob_eq ?_⟩
                  rw [run_tryUpdateJob, new]
              | true =>
                  cases made : MoneroJob.new manager.jobCounter.getNext.1 response.response
                      manager.instanceId with
                  | error exception =>
                      refine ⟨_, Or.inr rfl, updateJob_of_exception exception ?_⟩
                      rw [run_tryUpdateJob, new]
                      simp only [made]
                  | ok job =>
                      have present := (MoneroJob.new_eq_ok made).1
                      rw [present] at made
                      exact (refused ⟨job.blockTemplate, present,
                        MoneroJob.exists_new_iff.mp ⟨job, made⟩,
                        newer_of_gotNewBlockTemplate new _ present⟩).elim

end Step

end MoneroJobManager

end Hypepool
