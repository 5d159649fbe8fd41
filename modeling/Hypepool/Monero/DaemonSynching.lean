import Hypepool.Monero.StartupSafety

/-!
# Waiting for the daemon to be synched

`EnsureDaemonSynchedAsync` asks for a block template until `isSynched`, which is any answer whose
error is not the code -9 of a busy core.  A call that failed, or was refused for another reason, is
such an answer too:

* `returns_synched_iff`: the loop returns on templates that were served exactly when no call fails
  with another code.
-/

namespace Hypepool.MoneroPool

open Base

variable {Token : Type}

/-- One answer of the daemon inside `EnsureDaemonSynchedAsync`. -/
def synchStep (surroundings : Surroundings Token) (daemon : DaemonClient) (startup : Startup)
    (exchange : HttpExchange Token) : Option Startup :=
  if startup = .synching ∨ startup = .measuringSync then
    (afterDaemonAnswer surroundings daemon exchange startup).map continueWith
  else none

/-- The answers to `getblocktemplate` among those of a run: every other one. -/
def templateExchanges : Startup → List (HttpExchange Token) → List (HttpExchange Token)
  | _, [] => []
  | .synching, exchange :: exchanges =>
      exchange :: templateExchanges .measuringSync exchanges
  | _, _ :: exchanges => templateExchanges .synching exchanges

/-- The answer is a response without an error. -/
def Served (surroundings : Surroundings Token) (daemon : DaemonClient)
    (exchange : HttpExchange Token) : Prop :=
  ∃ response, daemon.executeCommandAsync surroundings.toTemplate exchange = .ok response ∧
    response.error = none

/-- If the answer is a response with an error, then that has the code -9. -/
def FailsBusy (surroundings : Surroundings Token) (daemon : DaemonClient)
    (exchange : HttpExchange Token) : Prop :=
  ∀ response error, daemon.executeCommandAsync surroundings.toTemplate exchange = .ok response →
    response.error = some error → error.code = -9

/-- If the loop has returned, then the last answer to `getblocktemplate` was without an error. -/
def ReturnsServed (surroundings : Surroundings Token) (daemon : DaemonClient) (startup : Startup)
    (exchanges : List (HttpExchange Token)) : Prop :=
  startup = .postInitChecks →
    ∃ exchange, exchanges.getLast? = some exchange ∧ Served surroundings daemon exchange

section Run

variable {surroundings : Surroundings Token} {daemon : DaemonClient} {startup next : Startup}
  {exchange : HttpExchange Token} {exchanges : List (HttpExchange Token)}

theorem isSynched_iff {response : DaemonResponse GetBlockTemplateResponse} :
    isSynched response = true ↔ ∀ error, response.error = some error → error.code ≠ -9 := by
  unfold isSynched
  cases response.error with
  | none => exact iff_of_true rfl nofun
  | some error =>
      rw [decide_eq_true_iff]
      constructor
      · intro other _ same
        cases same
        exact other
      · intro others
        exact others error rfl

/-- An answer to `getblocktemplate`: an exception, the end of the loop, or another round. -/
theorem synchStep_synching (taken : synchStep surroundings daemon .synching exchange = some next) :
    (∃ exception, daemon.executeCommandAsync surroundings.toTemplate exchange = .error exception ∧
        next = .aborted exception) ∨
      ∃ response, daemon.executeCommandAsync surroundings.toTemplate exchange = .ok response ∧
        next = if isSynched response then .postInitChecks else .measuringSync := by
  rw [synchStep, if_pos (Or.inl rfl), afterDaemonAnswer, Option.map_some] at taken
  cases Option.some.inj taken
  cases daemon.executeCommandAsync surroundings.toTemplate exchange with
  | error exception => exact Or.inl ⟨exception, rfl, rfl⟩
  | ok response => exact Or.inr ⟨response, rfl, rfl⟩

/-- An answer to `get_info` in between: a new round, or an exception. -/
theorem synchStep_measuringSync
    (taken : synchStep surroundings daemon .measuringSync exchange = some next) :
    next = .synching ∨ ∃ exception, next = .aborted exception := by
  rw [synchStep, if_pos (Or.inr rfl), afterDaemonAnswer, Option.map_some] at taken
  cases Option.some.inj taken
  cases daemon.executeCommandAsync surroundings.toInfo exchange with
  | error exception => exact Or.inr ⟨exception, rfl⟩
  | ok response =>
      rw [Base.ok_bind]
      cases response.response with
      | none => exact Or.inr ⟨.nullReference, rfl⟩
      | some info => exact Or.inl rfl

/-- Outside the loop there are no more answers. -/
theorem exec_outside {final : Startup}
    (run : exec (synchStep surroundings daemon) startup exchanges = some final)
    (left : startup ≠ .synching ∧ startup ≠ .measuringSync) :
    exchanges = [] ∧ final = startup := by
  cases exchanges with
  | nil => exact ⟨rfl, (Option.some.inj run).symm⟩
  | cons exchange exchanges =>
      obtain ⟨next, taken, _⟩ := exec_cons_eq_some.mp run
      rw [synchStep, if_neg (not_or.mpr left)] at taken
      cases taken

/-- What an answer is, where it is a response. -/
theorem served_iff {response : DaemonResponse GetBlockTemplateResponse}
    (answered : daemon.executeCommandAsync surroundings.toTemplate exchange = .ok response) :
    Served surroundings daemon exchange ↔ response.error = none := by
  constructor
  · intro served
    obtain ⟨other, answered', free⟩ := served
    cases Except.ok.inj (answered.symm.trans answered')
    exact free
  · intro free
    exact ⟨response, answered, free⟩

theorem failsBusy_iff {response : DaemonResponse GetBlockTemplateResponse}
    (answered : daemon.executeCommandAsync surroundings.toTemplate exchange = .ok response) :
    FailsBusy surroundings daemon exchange ↔
      ∀ error, response.error = some error → error.code = -9 := by
  constructor
  · intro busy error
    exact busy response error answered
  · intro busy other error answered'
    cases Except.ok.inj (answered.symm.trans answered')
    exact busy error

/-- An answer that is served ends the loop as it should; one that is not, and ends it, has another
code. -/
theorem served_iff_failsBusy {response : DaemonResponse GetBlockTemplateResponse}
    (answered : daemon.executeCommandAsync surroundings.toTemplate exchange = .ok response)
    (synched : isSynched response = true) :
    Served surroundings daemon exchange ↔ FailsBusy surroundings daemon exchange := by
  rw [served_iff answered, failsBusy_iff answered]
  constructor
  · intro free error failed
    rw [free] at failed
    cases failed
  · intro busy
    cases failed : response.error with
    | none => rfl
    | some error => exact (isSynched_iff.mp synched error failed (busy error failed)).elim

theorem busy_of_not_isSynched {response : DaemonResponse GetBlockTemplateResponse}
    (answered : daemon.executeCommandAsync surroundings.toTemplate exchange = .ok response)
    (waits : ¬ isSynched response = true) :
    ¬ Served surroundings daemon exchange ∧ FailsBusy surroundings daemon exchange := by
  rw [served_iff answered, failsBusy_iff answered]
  rw [isSynched_iff] at waits
  push Not at waits
  obtain ⟨error, failed, code⟩ := waits
  rw [failed]
  refine ⟨nofun, fun other same => ?_⟩
  cases same
  exact code

/-- The last of some answers is that of the later ones, unless the first was served. -/
theorem returnsServed_cons {final : Startup} {templates : List (HttpExchange Token)}
    (failed : ¬ Served surroundings daemon exchange) :
    ReturnsServed surroundings daemon final (exchange :: templates) ↔
      ReturnsServed surroundings daemon final templates := by
  unfold ReturnsServed
  cases templates with
  | nil =>
      constructor
      · intro returns returned
        obtain ⟨last, isLast, served⟩ := returns returned
        cases Option.some.inj isLast
        exact (failed served).elim
      · intro returns returned
        obtain ⟨last, isLast, _⟩ := returns returned
        cases isLast
  | cons template templates => rw [List.getLast?_cons_cons]

/-- A run of the loop, from either of its two calls. -/
theorem returnsServed_run_iff {final : Startup}
    (inside : startup = .synching ∨ startup = .measuringSync)
    (run : exec (synchStep surroundings daemon) startup exchanges = some final) :
    ReturnsServed surroundings daemon final (templateExchanges startup exchanges) ↔
      ∀ exchange ∈ templateExchanges startup exchanges,
        FailsBusy surroundings daemon exchange := by
  have waiting : ∀ {answers}, final ≠ .postInitChecks →
      ReturnsServed surroundings daemon final answers := fun other returned =>
    (other returned).elim
  induction exchanges generalizing startup with
  | nil =>
      have nothing : templateExchanges startup ([] : List (HttpExchange Token)) = [] := by
        rw [templateExchanges]
      cases Option.some.inj run
      rw [nothing]
      refine iff_of_true (waiting ?_) nofun
      rcases inside with same | same
      · exact same ▸ nofun
      · exact same ▸ nofun
  | cons exchange exchanges ih =>
      obtain ⟨next, taken, rest⟩ := exec_cons_eq_some.mp run
      rcases inside with rfl | rfl
      · rw [templateExchanges]
        rcases synchStep_synching taken with ⟨exception, thrown, rfl⟩ | ⟨response, answered, rfl⟩
        · obtain ⟨rfl, rfl⟩ := exec_outside rest ⟨nofun, nofun⟩
          refine iff_of_true (waiting nofun) fun other member => ?_
          cases List.mem_singleton.mp member
          intro response error answered
          cases thrown.symm.trans answered
        · by_cases synched : isSynched response = true
          · rw [if_pos synched] at rest
            obtain ⟨rfl, rfl⟩ := exec_outside rest ⟨nofun, nofun⟩
            rw [templateExchanges, List.forall_mem_singleton,
              ← served_iff_failsBusy answered synched]
            constructor
            · intro returns
              obtain ⟨last, isLast, served⟩ := returns rfl
              cases Option.some.inj isLast
              exact served
            · intro served _
              exact ⟨exchange, rfl, served⟩
          · rw [if_neg synched] at rest
            obtain ⟨failed, busy⟩ := busy_of_not_isSynched answered synched
            rw [returnsServed_cons failed, List.forall_mem_cons]
            have later := ih (Or.inr rfl) rest
            exact later.trans (and_iff_right busy).symm
      · rw [templateExchanges]
        · rcases synchStep_measuringSync taken with rfl | ⟨exception, rfl⟩
          · exact ih (Or.inl rfl) rest
          · obtain ⟨rfl, rfl⟩ := exec_outside rest ⟨nofun, nofun⟩
            exact iff_of_true (waiting nofun) nofun
        · nofun

/-- **Waiting for a synched daemon.**  In every run of `EnsureDaemonSynchedAsync`, whatever the
daemon answers: that it has returned only on a block template answer without an error holds if and
only if every block template answer with an error had the code -9. -/
theorem returns_synched_iff (surroundings : Surroundings Token) (daemon : DaemonClient)
    (exchanges : List (HttpExchange Token)) (final : Startup)
    (run : exec (synchStep surroundings daemon) .synching exchanges = some final) :
    ReturnsServed surroundings daemon final (templateExchanges .synching exchanges) ↔
      ∀ exchange ∈ templateExchanges .synching exchanges,
        FailsBusy surroundings daemon exchange :=
  returnsServed_run_iff (Or.inl rfl) run

end Run

/-- The daemon is busy once, and serves a template when it is asked again. -/
theorem returns_synched_busy_once :
    ReturnsServed sampleSurroundings ⟨true⟩ .postInitChecks
      (templateExchanges .synching
        [.reply ⟨none, some ⟨-9, none⟩⟩, answerWith sampleInfo,
          answerWith (.template (MoneroJobManager.template1088295 "3b4aff4f"))]) := by
  apply (returns_synched_iff sampleSurroundings ⟨true⟩ _ _ rfl).mpr
  intro exchange member response error answered failed
  rcases List.mem_pair.mp member with rfl | rfl
  · cases Except.ok.inj answered
    cases failed
    rfl
  · cases Except.ok.inj answered
    cases failed

/-- The daemon cannot be reached at all: the loop returns at once. -/
theorem returns_on_failed_call :
    exec (synchStep sampleSurroundings ⟨true⟩) .synching [.thrown .httpRequest] =
        some .postInitChecks ∧
      ¬ ReturnsServed sampleSurroundings ⟨true⟩ .postInitChecks
        (templateExchanges .synching [.thrown .httpRequest]) := by
  refine ⟨rfl, fun returns => ?_⟩
  obtain ⟨last, isLast, response, answered, free⟩ := returns rfl
  cases Option.some.inj isLast
  cases Except.ok.inj answered
  cases free

end Hypepool.MoneroPool
