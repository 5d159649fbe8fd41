import Hypepool.Base.Run
import Mathlib.Data.List.Count
import Mathlib.Data.List.Nodup
import Mathlib.Logic.Function.Basic

/-!
# Where the items of a pool are

A ledger says of every item that was taken from a pool where it is: held by whoever runs, parked in
a queue, handed to somebody else, or released.  `Ledger.move` enters one move, if the item is where
the move finds it; so a log of moves that can be entered as a whole had each item in one place at
any time, and no item was moved from a place it was not in.

* `count_of_exec`: an item that ended at one of the two final places was brought there once, and any
  other item never.
* `Ledger.Accounts`: which items are held and which are parked, with one rule for each move.
-/

namespace Hypepool.Base

universe u

inductive Place
  | held
  | parked
  | handed
  | released
  deriving DecidableEq

/-- What can be done with an item. -/
inductive Handling
  | take
  | park
  | unpark
  | hand
  | release
  deriving DecidableEq

/-- Where the item is before; an item to be taken is nowhere. -/
def Handling.before : Handling → Option Place
  | .take => none
  | .park | .hand | .release => some .held
  | .unpark => some .parked

/-- Where the item is afterwards. -/
def Handling.after : Handling → Place
  | .take | .unpark => .held
  | .park => .parked
  | .hand => .handed
  | .release => .released

structure Move (ι : Type u) where
  handling : Handling
  item : ι
  deriving DecidableEq

/-- The place of each item that was taken. -/
abbrev Ledger (ι : Type u) := ι → Option Place

variable {ι : Type u}

/-- No item was taken. -/
def Ledger.empty : Ledger ι := fun _ => none

variable [DecidableEq ι]

/-- A move, if the item is where it has to be. -/
def Ledger.move (ledger : Ledger ι) (move : Move ι) : Option (Ledger ι) :=
  if ledger move.item = move.handling.before then
    some (Function.update ledger move.item (some move.handling.after))
  else none

variable {ledger ledger' : Ledger ι} {move : Move ι} {moves : List (Move ι)} {item : ι}

theorem Ledger.move_eq_some (here : ledger move.item = move.handling.before) :
    ledger.move move = some (Function.update ledger move.item (some move.handling.after)) :=
  if_pos here

theorem Ledger.move_cases (taken : ledger.move move = some ledger') :
    ledger move.item = move.handling.before ∧
      ledger' = Function.update ledger move.item (some move.handling.after) := by
  unfold Ledger.move at taken
  split at taken
  case isTrue here => exact ⟨here, (Option.some.inj taken).symm⟩
  case isFalse => cases taken

/-- Nothing moves an item away from the place to which `handling` brings it, and nothing else brings
it there. -/
def Handling.IsFinal (handling : Handling) : Prop :=
  ∀ other : Handling, other.before ≠ some handling.after ∧
    (other.after = handling.after → other = handling)

theorem isFinal_hand : Handling.IsFinal .hand := by
  intro other
  cases other with
  | hand => exact ⟨nofun, fun _ => rfl⟩
  | _ => exact ⟨nofun, nofun⟩

theorem isFinal_release : Handling.IsFinal .release := by
  intro other
  cases other with
  | release => exact ⟨nofun, fun _ => rfl⟩
  | _ => exact ⟨nofun, nofun⟩

/-- Whether an item is at the place to which `handling` brings it, as a number. -/
def Ledger.settled (ledger : Ledger ι) (handling : Handling) (item : ι) : Nat :=
  if ledger item = some handling.after then 1 else 0

/-- One move to a final place counts once. -/
theorem settled_move (item : ι) {handling : Handling} (isFinal : handling.IsFinal)
    (taken : ledger.move move = some ledger') :
    ledger'.settled handling item =
      [move].count ⟨handling, item⟩ + ledger.settled handling item := by
  obtain ⟨here, rfl⟩ := Ledger.move_cases taken
  unfold Ledger.settled
  rw [List.count_singleton]
  by_cases same : item = move.item
  · subst same
    have away : ledger move.item ≠ some handling.after := here ▸ (isFinal move.handling).1
    rw [Function.update_self, if_neg away, Nat.add_zero]
    by_cases isIt : move.handling = handling
    · subst isIt
      rw [if_pos rfl, if_pos (beq_self_eq_true _)]
    · have elsewhere : ¬ some move.handling.after = some handling.after := fun equal =>
        isIt ((isFinal move.handling).2 (Option.some.inj equal))
      have differs : ¬ (move == ⟨handling, move.item⟩) = true := fun equal =>
        isIt (congrArg Move.handling (eq_of_beq equal))
      rw [if_neg elsewhere, if_neg differs]
  · have differs : ¬ (move == ⟨handling, item⟩) = true := fun equal =>
      same (congrArg Move.item (eq_of_beq equal)).symm
    rw [Function.update_of_ne same, if_neg differs, Nat.zero_add]

/-- How often a log brought an item to a final place. -/
theorem count_of_exec (item : ι) {handling : Handling} (isFinal : handling.IsFinal)
    (run : exec Ledger.move ledger moves = some ledger') :
    moves.count ⟨handling, item⟩ + ledger.settled handling item =
      ledger'.settled handling item := by
  induction moves generalizing ledger with
  | nil =>
      cases Option.some.inj run
      rw [List.count_nil, Nat.zero_add]
  | cons move moves ih =>
      obtain ⟨between, taken, rest⟩ := exec_cons_eq_some.mp run
      have first := settled_move item isFinal taken
      have split : (move :: moves).count ⟨handling, item⟩ =
          [move].count ⟨handling, item⟩ + moves.count ⟨handling, item⟩ := by
        rw [← List.singleton_append, List.count_append]
      rw [← ih rest, first, split]
      omega

/-- An item that was moved is somewhere. -/
theorem placed_of_exec (run : exec Ledger.move ledger moves = some ledger')
    (moved : ledger item ≠ none ∨ ∃ handling, ⟨handling, item⟩ ∈ moves) :
    ledger' item ≠ none := by
  induction moves generalizing ledger with
  | nil =>
      cases Option.some.inj run
      exact moved.elim id fun later => nomatch later.choose_spec
  | cons move moves ih =>
      obtain ⟨between, taken, rest⟩ := exec_cons_eq_some.mp run
      obtain ⟨-, rfl⟩ := Ledger.move_cases taken
      refine ih rest ?_
      by_cases same : item = move.item
      · rw [same, Function.update_self]
        exact Or.inl (Option.some_ne_none _)
      · rw [Function.update_of_ne same]
        refine moved.imp_right ?_
        rintro ⟨handling, member⟩
        rcases List.mem_cons.mp member with here | later
        · exact (same (congrArg Move.item here)).elim
        · exact ⟨handling, later⟩

/-- Where an item is that a log moved, and how often it was handed on and released. -/
theorem history_of_exec (run : exec Ledger.move Ledger.empty moves = some ledger)
    (moved : ∃ handling, ⟨handling, item⟩ ∈ moves) :
    ∃ place, ledger item = some place ∧
      moves.count ⟨.hand, item⟩ = (if place = .handed then 1 else 0) ∧
      moves.count ⟨.release, item⟩ = if place = .released then 1 else 0 := by
  obtain ⟨place, here⟩ := Option.ne_none_iff_exists'.mp (placed_of_exec run (Or.inr moved))
  have handed := count_of_exec item isFinal_hand run
  have released := count_of_exec item isFinal_release run
  simp only [Ledger.settled, Ledger.empty, here, Option.some.injEq, reduceCtorEq, if_false,
    Handling.after, Nat.add_zero] at handed released
  exact ⟨place, here, handed, released⟩

/-! ## Which items are held and which are parked -/

structure Ledger.Accounts (ledger : Ledger ι) (held parked : List ι) : Prop where
  held_iff : ∀ item, ledger item = some .held ↔ item ∈ held
  parked_iff : ∀ item, ledger item = some .parked ↔ item ∈ parked
  held_nodup : held.Nodup
  parked_nodup : parked.Nodup

namespace Ledger

omit [DecidableEq ι] in
theorem accounts_empty : (empty : Ledger ι).Accounts [] [] :=
  ⟨fun _ => ⟨nofun, nofun⟩, fun _ => ⟨nofun, nofun⟩, List.nodup_nil, List.nodup_nil⟩

variable {held parked held' parked' : List ι}

namespace Accounts

omit [DecidableEq ι] in
/-- An item is in one place. -/
theorem not_parked_of_held (accounts : ledger.Accounts held parked) (here : item ∈ held) :
    item ∉ parked := by
  intro there
  have held := (accounts.held_iff item).mpr here
  have parked := (accounts.parked_iff item).mpr there
  cases held.symm.trans parked

/-- The accounts after `item` was brought to `place`. -/
theorem update (accounts : ledger.Accounts held parked) {place : Place}
    (heldAfter : ∀ other,
      other ∈ held' ↔ other = item ∧ place = .held ∨ other ≠ item ∧ other ∈ held)
    (parkedAfter : ∀ other,
      other ∈ parked' ↔ other = item ∧ place = .parked ∨ other ≠ item ∧ other ∈ parked)
    (heldNodup : held'.Nodup) (parkedNodup : parked'.Nodup) :
    Accounts (Function.update ledger item (some place)) held' parked' := by
  have placed : ∀ other sought, Function.update ledger item (some place) other = some sought ↔
      other = item ∧ place = sought ∨ other ≠ item ∧ ledger other = some sought := by
    intro other sought
    by_cases same : other = item
    · simp [same]
    · simp [same]
  refine ⟨fun other => ?_, fun other => ?_, heldNodup, parkedNodup⟩
  · rw [placed, heldAfter, accounts.held_iff]
  · rw [placed, parkedAfter, accounts.parked_iff]

/-! Each move can be entered, and these are the accounts then. -/

theorem take (accounts : ledger.Accounts held parked) (new : ledger item = none) :
    ∃ ledger', ledger.move ⟨.take, item⟩ = some ledger' ∧
      ledger'.Accounts (item :: held) parked := by
  have unheld : item ∉ held := fun member =>
    nomatch new.symm.trans ((accounts.held_iff item).mpr member)
  have unparked : item ∉ parked := fun member =>
    nomatch new.symm.trans ((accounts.parked_iff item).mpr member)
  refine ⟨_, move_eq_some new, accounts.update ?_ ?_ ?_ accounts.parked_nodup⟩
  · grind [Handling.after]
  · grind [Handling.after]
  · exact List.nodup_cons.mpr ⟨unheld, accounts.held_nodup⟩

theorem park (accounts : ledger.Accounts (item :: held) parked) :
    ∃ ledger', ledger.move ⟨.park, item⟩ = some ledger' ∧
      ledger'.Accounts held (parked ++ [item]) := by
  obtain ⟨unheld, heldNodup⟩ := List.nodup_cons.mp accounts.held_nodup
  have here := (accounts.held_iff item).mpr List.mem_cons_self
  have unparked := accounts.not_parked_of_held List.mem_cons_self
  refine ⟨_, move_eq_some here, accounts.update ?_ ?_ heldNodup ?_⟩
  · grind [Handling.after]
  · grind [Handling.after]
  · exact List.nodup_append_comm.mp (List.nodup_cons.mpr ⟨unparked, accounts.parked_nodup⟩)

theorem unpark (accounts : ledger.Accounts held (item :: parked)) :
    ∃ ledger', ledger.move ⟨.unpark, item⟩ = some ledger' ∧
      ledger'.Accounts (item :: held) parked := by
  obtain ⟨unparked, parkedNodup⟩ := List.nodup_cons.mp accounts.parked_nodup
  have here := (accounts.parked_iff item).mpr List.mem_cons_self
  have unheld : item ∉ held := fun member =>
    accounts.not_parked_of_held member List.mem_cons_self
  refine ⟨_, move_eq_some here, accounts.update ?_ ?_ ?_ parkedNodup⟩
  · grind [Handling.after]
  · grind [Handling.after]
  · exact List.nodup_cons.mpr ⟨unheld, accounts.held_nodup⟩

/-- An item that is held can be brought to where nobody accounts for it. -/
theorem leave (accounts : ledger.Accounts (item :: held) parked) {handling : Handling}
    (start : handling.before = some .held)
    (away : handling.after ≠ .held ∧ handling.after ≠ .parked) :
    ∃ ledger', ledger.move ⟨handling, item⟩ = some ledger' ∧ ledger'.Accounts held parked := by
  obtain ⟨unheld, heldNodup⟩ := List.nodup_cons.mp accounts.held_nodup
  have here := (accounts.held_iff item).mpr List.mem_cons_self
  have unparked := accounts.not_parked_of_held List.mem_cons_self
  refine ⟨_, move_eq_some (here.trans start.symm), accounts.update ?_ ?_ heldNodup
    accounts.parked_nodup⟩
  · grind
  · grind

theorem hand (accounts : ledger.Accounts (item :: held) parked) :
    ∃ ledger', ledger.move ⟨.hand, item⟩ = some ledger' ∧ ledger'.Accounts held parked :=
  accounts.leave rfl ⟨nofun, nofun⟩

theorem release (accounts : ledger.Accounts (item :: held) parked) :
    ∃ ledger', ledger.move ⟨.release, item⟩ = some ledger' ∧ ledger'.Accounts held parked :=
  accounts.leave rfl ⟨nofun, nofun⟩

end Accounts

end Ledger

end Hypepool.Base
