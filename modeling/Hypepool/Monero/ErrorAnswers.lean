import Hypepool.Monero.TipFollowing

/-!
# Answers with an error, in `UpdateJob`

`UpdateJob` means to "make sure we are free of errors", logs the error it finds, and goes on with
the response beside it.

* `errorAnswer_keeps_job_iff`: such an answer leaves the job alone exactly when it carries nothing
  to make a newer job of.
-/

namespace Hypepool.MoneroJobManager

open Base DaemonClient

/-- The poll gives no job, and the current job stays as it was. -/
def KeepsJob [CurrentCulture] (manager : MoneroJobManager) (answer : TemplateAnswer) : Prop :=
  (updateJob manager answer).1 = none ∧
    (updateJob manager answer).2.currentJob = manager.currentJob

/-- There is nothing in an answer to make a newer job of: no template, one with a blob that is too
short, or one that is not higher than the current job. -/
def NothingNewer [CurrentCulture] (manager : MoneroJobManager)
    (blockTemplate : Option GetBlockTemplateResponse) : Prop :=
  ∀ template, blockTemplate = some template →
    ¬ MoneroJob.Constructible template ∨
      ∃ current, manager.currentJob = some current ∧
        template.height ≤ current.blockTemplate.height

theorem nothingNewer_iff [CurrentCulture] {manager : MoneroJobManager}
    {error : Option JsonRpcException} {blockTemplate : Option GetBlockTemplateResponse} :
    NothingNewer manager blockTemplate ↔
      ¬ Adoptable manager (.ok (some ⟨error, blockTemplate⟩)) := by
  constructor
  · intro nothing adoptable
    obtain ⟨template, carried, constructible, newer⟩ := adoptable
    rcases nothing template carried with short | ⟨current, isCurrent, low⟩
    · exact short constructible
    · exact UInt32.not_le.mpr (newer current isCurrent) low
  · intro refused template carried
    by_contra neither
    push Not at neither
    apply refused
    refine ⟨template, carried, neither.1, fun current isCurrent => ?_⟩
    exact UInt32.not_le.mp (neither.2 current isCurrent)

/-- **Answers with an error.**  For every job manager and every answer with an error: `UpdateJob`
returns `null` and keeps the current job if and only if there is nothing beside the error to make a
newer job of. -/
theorem errorAnswer_keeps_job_iff [CurrentCulture] (manager : MoneroJobManager)
    (error : JsonRpcException) (blockTemplate : Option GetBlockTemplateResponse) :
    KeepsJob manager (.ok (some ⟨some error, blockTemplate⟩)) ↔
      NothingNewer manager blockTemplate := by
  have nothing : NothingNewer manager blockTemplate ↔
      ¬ Adoptable manager (.ok (some ⟨some error, blockTemplate⟩)) := nothingNewer_iff
  rw [nothing]
  unfold KeepsJob
  constructor
  · intro kept adoptable
    obtain ⟨_, job, _, _, _, updated⟩ := updateJob_of_adoptable adoptable
    rw [updated] at kept
    cases kept.1
  · intro refused
    obtain ⟨counter, _, updated⟩ := updateJob_of_not_adoptable refused
    rw [updated]
    exact ⟨rfl, rfl⟩

section Samples

open OrdinalCulture

/-- The daemon replies with an error and a template, and `UpdateJob` makes a job of it. -/
theorem errorAnswer_adopted :
    let answer : TemplateAnswer :=
      (executeCommandAsync ⟨true⟩ (fun template => .ok (some template))
        (.reply ⟨some (.token (template1088295 "3b4aff4f")), some ⟨-1, none⟩⟩)).map some
    answer = .ok (some ⟨some ⟨-1, none⟩, some (template1088295 "3b4aff4f")⟩) ∧
      ¬ KeepsJob (start ⟨[1, 2, 3], rfl⟩) answer := by
  intro answer
  refine ⟨rfl, fun kept => ?_⟩
  have adopted : (updateJob (start ⟨[1, 2, 3], rfl⟩) answer).1.isSome = true := by decide +kernel
  rw [kept.1] at adopted
  cases adopted

end Samples

end Hypepool.MoneroJobManager
