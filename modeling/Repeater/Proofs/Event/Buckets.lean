/-
  Repeater/Proofs/Event/Buckets.lean
  ==================================
  **A table of listeners is a list of listeners.**

  Whatever listeners are added and taken away, and in whatever order the rows of the table come to
  stand, the table answers as the list does in which the listeners stand in the order of their
  registration (`Buckets.as_list`). The buckets are the parts of the list that wait on one node for
  one kind of event.

  `Keeps` relates a table to its list. It says nothing about the order of the rows. Taking one
  listener away and keeping those with a certain handler are the same step for it: entries are
  dropped from all buckets, and then the empty buckets from the table. For the removal of a number,
  which stops at the first bucket that has it, this is so because no other entry has the number.
-/
import Repeater.Event.Buckets
import Repeater.Proofs.Lists

namespace Repeater

open Dom

variable {α : Type}

/-! ## Requests -/

/-- A change of the listeners. -/
inductive Request (α : Type) where
  | add (target : NodeId) (kind : EventKind) (handler : α)
  | remove (number : Nat)
  | retain (keep : α → Bool)

/-- What a request is answered. -/
inductive Answer (α : Type) where
  /-- The number of the new listener. -/
  | added (number : Nat)
  /-- The handler that was taken away, if there was one. -/
  | removed (handler : Option α)
  | retained
deriving DecidableEq, Repr

/-- The number a request has given out. -/
def Answer.number? : Answer α → Option Nat
  | added number => some number
  | _ => none

/-- What a listener waits on and for. -/
def Listener.key (l : Listener α) : NodeId × EventKind := (l.target, l.kind)

/-- What a listener is in its bucket. -/
def Listener.entry (l : Listener α) : Nat × α := (l.number, l.handler)

namespace Listeners

variable {ls : Listeners α} {number : Nat}

/-- Answers a request and goes on with the new list. -/
def handle (ls : Listeners α) : Request α → Answer α × Listeners α
  | .add target kind handler => (.added ls.next, ls.add target kind handler)
  | .remove number => (.removed (ls.handler? number), ls.remove number)
  | .retain keep => (.retained, ls.retain keep)

/-- Answers requests one after the other. -/
def run (ls : Listeners α) : List (Request α) → List (Answer α) × Listeners α
  | [] => ([], ls)
  | request :: rest =>
    let (answer, ls) := ls.handle request
    let (answers, ls) := ls.run rest
    (answer :: answers, ls)

theorem run_append (ls : Listeners α) (requests : List (Request α)) (request : Request α) :
    ls.run (requests ++ [request]) =
      ((ls.run requests).1 ++ [((ls.run requests).2.handle request).1],
        ((ls.run requests).2.handle request).2) := by
  induction requests generalizing ls with
  | nil => rfl
  | cons first rest ih => simp [run, ih]

/-! ## Lists in the order of the numbers -/

/-- The listeners stand in the order of their numbers, and no number is still to come. -/
structure Ordered (ls : Listeners α) : Prop where
  increasing : ls.entries.Pairwise (·.number < ·.number)
  below : ∀ l ∈ ls.entries, l.number < ls.next

/-- Keeps the listeners whose number and handler satisfy `keep`. -/
def sift (ls : Listeners α) (keep : Nat × α → Bool) : Listeners α :=
  { ls with entries := ls.entries.filter fun l => keep l.entry }

namespace Ordered

theorem nodup (h : ls.Ordered) : (ls.entries.map (·.number)).Nodup :=
  List.pairwise_map.2 (h.increasing.imp fun hlt => Nat.ne_of_lt hlt)

theorem unique (h : ls.Ordered) {l l' : Listener α} (hl : l ∈ ls.entries) (hl' : l' ∈ ls.entries)
    (hnumber : l.number = l'.number) : l = l' :=
  List.inj_on_of_nodup_map h.nodup hl hl' hnumber

theorem add (h : ls.Ordered) (target : NodeId) (kind : EventKind) (handler : α) :
    (ls.add target kind handler).Ordered where
  increasing := by
    refine List.pairwise_append.2 ⟨h.increasing, List.pairwise_singleton _ _, ?_⟩
    rintro l hl _ hnew
    rw [List.mem_singleton.1 hnew]
    exact h.below l hl
  below := by
    intro l hl
    rcases List.mem_append.1 hl with hl | hnew
    · exact Nat.lt_succ_of_lt (h.below l hl)
    · rw [List.mem_singleton.1 hnew]
      exact Nat.lt_succ_self ls.next

theorem sift (h : ls.Ordered) (keep : Nat × α → Bool) : (ls.sift keep).Ordered where
  increasing := h.increasing.sublist List.filter_sublist
  below l hl := h.below l (List.mem_of_mem_filter hl)

/-- Taking a listener away keeps all others. -/
theorem remove_eq_sift (h : ls.Ordered) (number : Nat) :
    ls.remove number = ls.sift (·.1 != number) :=
  congrArg (fun entries => { ls with entries }) (eraseP_number h.nodup number)

theorem handler?_eq_some (h : ls.Ordered) {handler : α} :
    ls.handler? number = some handler ↔ ∃ l ∈ ls.entries, l.entry = (number, handler) := by
  unfold handler?
  rw [Option.map_eq_some_iff]
  constructor
  · rintro ⟨l, hfind, rfl⟩
    obtain ⟨hl, rfl⟩ := (find?_number_eq_some h.nodup).1 hfind
    exact ⟨l, hl, rfl⟩
  · rintro ⟨l, hl, hentry⟩
    obtain ⟨rfl, rfl⟩ := Prod.mk.inj hentry
    exact ⟨l, (find?_number_eq_some h.nodup).2 ⟨hl, rfl⟩, rfl⟩

/-- The listener of a number is taken out of its place in the list, or there is none and the list
    stays as it is. -/
theorem remove_cases (h : ls.Ordered) (number : Nat) :
    (∃ before l rest, ls.entries = before ++ l :: rest ∧ l.number = number ∧
      ls.handler? number = some l.handler ∧ (ls.remove number).entries = before ++ rest) ∨
    ((∀ l ∈ ls.entries, l.number ≠ number) ∧ ls.handler? number = none ∧
      ls.remove number = ls) := by
  by_cases hknown : ∃ l ∈ ls.entries, l.number = number
  · obtain ⟨l, hl, rfl⟩ := hknown
    obtain ⟨l', before, rest, hbefore, hnumber, hlist, herase⟩ :=
      List.exists_of_eraseP (p := (·.number == l.number)) hl (beq_self_eq_true l.number)
    have hsame : l' = l :=
      h.unique (by simp [hlist]) hl (beq_iff_eq.1 hnumber)
    subst hsame
    exact .inl ⟨before, l', rest, hlist, rfl, h.handler?_eq_some.2 ⟨l', hl, rfl⟩, herase⟩
  · push Not at hknown
    refine .inr ⟨hknown, Option.eq_none_iff_forall_ne_some.2 fun handler hsome => ?_, ?_⟩
    · obtain ⟨l, hl, hentry⟩ := h.handler?_eq_some.1 hsome
      exact hknown l hl (Prod.mk.inj hentry).1
    · unfold remove
      rw [List.eraseP_of_forall_not fun l hl => by simpa using hknown l hl]

end Ordered

/-- The numbers that are given out on the way increase, also over listeners that have been taken
    away. -/
theorem numbers_run (ls : Listeners α) (requests : List (Request α)) :
    ls.next ≤ (ls.run requests).2.next ∧
      (∀ n ∈ (ls.run requests).1.filterMap Answer.number?, ls.next ≤ n) ∧
      ((ls.run requests).1.filterMap Answer.number?).Pairwise (· < ·) := by
  induction requests generalizing ls with
  | nil => simp [run]
  | cons request rest ih =>
    obtain ⟨hnext, hlow, hpairwise⟩ := ih (ls.handle request).2
    cases request with
    | add target kind handler =>
      have hstep : (ls.handle (.add target kind handler)).2.next = ls.next + 1 := rfl
      rw [hstep] at hnext hlow
      refine ⟨Nat.le_of_succ_le hnext, ?_, ?_⟩
      · intro n hn
        rcases List.mem_cons.1 hn with rfl | hn
        · exact Nat.le_refl _
        · exact Nat.le_of_succ_le (hlow n hn)
      · exact List.pairwise_cons.2 ⟨hlow, hpairwise⟩
    | remove number => exact ⟨hnext, hlow, hpairwise⟩
    | retain keep => exact ⟨hnext, hlow, hpairwise⟩

/-- The part of the list that waits on one node for one kind of event. -/
def bucket (ls : Listeners α) (key : NodeId × EventKind) : List (Nat × α) :=
  (ls.entries.filter fun l => l.key = key).map Listener.entry

theorem map_entry_on (ls : Listeners α) (target : NodeId) (kind : EventKind) :
    (ls.on target kind).map Listener.entry = ls.bucket (target, kind) := by
  unfold on bucket
  congr 1
  refine List.filter_congr fun l _ => ?_
  simp [Listener.key]

theorem mem_bucket {key : NodeId × EventKind} {entry : Nat × α} :
    entry ∈ ls.bucket key ↔ ∃ l ∈ ls.entries, l.key = key ∧ l.entry = entry := by
  simp [bucket, and_assoc]

theorem bucket_add (ls : Listeners α) (target : NodeId) (kind : EventKind) (handler : α)
    (key : NodeId × EventKind) :
    (ls.add target kind handler).bucket key =
      if key = (target, kind) then ls.bucket key ++ [(ls.next, handler)] else ls.bucket key := by
  by_cases hkey : key = (target, kind)
  · subst hkey
    simp [bucket, add, Listener.key, Listener.entry]
  · simp [bucket, add, Listener.key, hkey, Ne.symm hkey]

theorem bucket_sift (ls : Listeners α) (keep : Nat × α → Bool) (key : NodeId × EventKind) :
    (ls.sift keep).bucket key = (ls.bucket key).filter keep := by
  unfold bucket sift
  rw [List.filter_map, List.filter_filter, List.filter_filter]
  congr 1
  exact List.filter_congr fun l _ => Bool.and_comm _ _

/-- No number stands twice in a bucket. -/
theorem Ordered.nodup_bucket (h : ls.Ordered) (key : NodeId × EventKind) :
    ((ls.bucket key).map (·.1)).Nodup := by
  unfold bucket
  rw [List.map_map]
  exact h.nodup.sublist (List.filter_sublist.map _)

end Listeners

namespace Buckets

variable {b : Buckets α} {ls : Listeners α} {key : NodeId × EventKind} {entry : Nat × α}
  {number : Nat} {row : (NodeId × EventKind) × List (Nat × α)}
  {table : List ((NodeId × EventKind) × List (Nat × α))}

/-- Answers a request and goes on with the new table. -/
def handle (b : Buckets α) : Request α → Answer α × Buckets α
  | .add target kind handler => (.added b.next, b.add target kind handler)
  | .remove number => ((.removed (b.remove number).1), (b.remove number).2)
  | .retain keep => (.retained, b.retain keep)

/-- Whether the requests can have been answered so, and left this table. Between two requests the
    rows of the table may change places. -/
inductive Runs : List (Request α) → List (Answer α) → Buckets α → Prop where
  | start : Runs [] [] {}
  | step {requests answers b} (request : Request α) (h : Runs requests answers b) :
      Runs (requests ++ [request]) (answers ++ [(b.handle request).1]) (b.handle request).2
  | reorder {requests answers b table} (hperm : b.table.Perm table)
      (h : Runs requests answers b) : Runs requests answers { b with table }

/-! ## Rows -/

theorem mem_dropEmpty : row ∈ dropEmpty table ↔ row ∈ table ∧ row.2 ≠ [] := by
  simp [dropEmpty]

theorem keys_push : (push key entry table).map (·.1) =
    if key ∈ table.map (·.1) then table.map (·.1) else table.map (·.1) ++ [key] := by
  induction table with
  | nil => rfl
  | cons row rest ih =>
    by_cases hrow : row.1 = key
    · simp [push, hrow]
    · have hne : ¬ key = row.1 := fun h => hrow h.symm
      by_cases hrest : key ∈ rest.map (·.1)
      · simp [push, hrow, ih, hrest]
      · simp [push, hrow, ih, hrest, hne]

/-- The rows after an entry has been put into the bucket of `key`. -/
theorem mem_push (hkeys : (table.map (·.1)).Nodup) (h : row ∈ push key entry table) :
    (row ∈ table ∧ row.1 ≠ key) ∨
      ∃ bucket, row = (key, bucket ++ [entry]) ∧
        ((key, bucket) ∈ table ∨ bucket = [] ∧ key ∉ table.map (·.1)) := by
  induction table with
  | nil =>
    obtain rfl : row = (key, [entry]) := by simpa [push] using h
    exact .inr ⟨[], rfl, .inr ⟨rfl, by simp⟩⟩
  | cons first rest ih =>
    obtain ⟨hfirst, hrest⟩ := List.nodup_cons.1 hkeys
    rw [push] at h
    split at h
    · next heq =>
      subst heq
      rcases List.mem_cons.1 h with rfl | h
      · exact .inr ⟨first.2, rfl, .inl (by simp)⟩
      · exact .inl ⟨List.mem_cons_of_mem _ h, fun heq => hfirst (List.mem_map.2 ⟨row, h, heq⟩)⟩
    · next hne =>
      rcases List.mem_cons.1 h with rfl | h
      · exact .inl ⟨by simp, hne⟩
      · rcases ih hrest h with ⟨hrow, hother⟩ | ⟨bucket, rfl, hold | ⟨rfl, hnew⟩⟩
        · exact .inl ⟨List.mem_cons_of_mem _ hrow, hother⟩
        · exact .inr ⟨bucket, rfl, .inl (List.mem_cons_of_mem _ hold)⟩
        · exact .inr ⟨[], rfl, .inr ⟨rfl, by simpa [Ne.symm hne] using hnew⟩⟩

/-- The entries of all buckets. -/
def entriesOf (table : List ((NodeId × EventKind) × List (Nat × α))) : List (Nat × α) :=
  table.flatMap (·.2)

theorem mem_entriesOf : entry ∈ entriesOf table ↔ ∃ row ∈ table, entry ∈ row.2 :=
  List.mem_flatMap

theorem size_eq_length (b : Buckets α) : b.size = (entriesOf b.table).length := by
  have hcount : ∀ (table : List ((NodeId × EventKind) × List (Nat × α))) (count : Nat),
      table.foldl (fun count row => count + row.2.length) count =
        count + (entriesOf table).length := by
    intro table
    induction table with
    | nil => exact fun _ => rfl
    | cons row rest ih =>
      intro count
      rw [List.foldl_cons, ih, Nat.add_assoc, ← List.length_append]
      rfl
  exact (hcount b.table 0).trans (Nat.zero_add _)

/-- Keeps the entries that satisfy `keep`. -/
def sift (b : Buckets α) (keep : Nat × α → Bool) : Buckets α :=
  { b with table := dropEmpty (b.table.map fun row => (row.1, row.2.filter keep)) }

/-- Rows that do not have a number stay as they are when its entry is dropped. -/
theorem filter_rows_self (h : ∀ e ∈ entriesOf table, e.1 ≠ number) :
    table.map (fun row => (row.1, row.2.filter (·.1 != number))) = table := by
  conv_rhs => rw [← List.map_id table]
  refine List.map_congr_left fun row hrow => ?_
  rw [filter_number_self fun e he => h e (mem_entriesOf.2 ⟨row, hrow, he⟩)]
  rfl

/-- If no number stands twice in the table, the first bucket that has a number is the only one. -/
theorem take_eq (h : ((entriesOf table).map (·.1)).Nodup) (number : Nat) :
    take number table =
      (((entriesOf table).find? (·.1 == number)).map (·.2),
        table.map fun row => (row.1, row.2.filter (·.1 != number))) := by
  induction table with
  | nil => rfl
  | cons row rest ih =>
    obtain ⟨key, bucket⟩ := row
    have hsplit : entriesOf ((key, bucket) :: rest) = bucket ++ entriesOf rest := rfl
    rw [hsplit, List.map_append, List.nodup_append] at h
    obtain ⟨hbucket, hrest, hapart⟩ := h
    rw [hsplit, List.find?_append, take]
    rcases hfind : bucket.find? (·.1 == number) with _ | e
    · have hnone : ∀ e ∈ bucket, e.1 ≠ number := by simpa using List.find?_eq_none.1 hfind
      rw [hfind, ih hrest, Option.none_or, List.map_cons, filter_number_self hnone]
    · obtain ⟨he, hnumber⟩ := (find?_number_eq_some hbucket).1 hfind
      have hother : ∀ e' ∈ entriesOf rest, e'.1 ≠ number := fun e' he' heq =>
        hapart e.1 (List.mem_map_of_mem he) e'.1 (List.mem_map_of_mem he') (hnumber.trans heq.symm)
      rw [hfind, Option.some_or, List.map_cons, eraseP_number hbucket, filter_rows_self hother]
      rfl

/-! ## Tables and lists -/

/-- Whether the buckets are the parts of the list. -/
structure Keeps (b : Buckets α) (ls : Listeners α) : Prop where
  ordered : ls.Ordered
  next : b.next = ls.next
  keys : (b.table.map (·.1)).Nodup
  filled : ∀ row ∈ b.table, row.2 ≠ []
  bucket : ∀ row ∈ b.table, row.2 = ls.bucket row.1
  listed : ∀ l ∈ ls.entries, l.key ∈ b.table.map (·.1)

namespace Keeps

theorem start : (({} : Buckets α)).Keeps {} := by
  constructor
  case ordered => exact ⟨List.Pairwise.nil, by simp⟩
  all_goals simp

theorem reorder (h : b.Keeps ls) (hperm : b.table.Perm table) :
    ({ b with table } : Buckets α).Keeps ls where
  ordered := h.ordered
  next := h.next
  keys := (hperm.map _).nodup_iff.1 h.keys
  filled row hrow := h.filled row (hperm.mem_iff.2 hrow)
  bucket row hrow := h.bucket row (hperm.mem_iff.2 hrow)
  listed l hl := (hperm.map _).mem_iff.1 (h.listed l hl)

theorem add (h : b.Keeps ls) (target : NodeId) (kind : EventKind) (handler : α) :
    (b.add target kind handler).Keeps (ls.add target kind handler) := by
  have hrows : ∀ row ∈ (b.add target kind handler).table,
      (row ∈ b.table ∧ row.1 ≠ (target, kind)) ∨
        row = ((target, kind), ls.bucket (target, kind) ++ [(ls.next, handler)]) := by
    intro row hrow
    rcases mem_push h.keys hrow with hold | ⟨bucket, rfl, hold | ⟨rfl, hnew⟩⟩
    · exact .inl hold
    · rw [← h.next, ← h.bucket _ hold]
      exact .inr rfl
    · -- nobody has been waiting there so far
      have hempty : ls.bucket (target, kind) = [] := by
        refine List.eq_nil_iff_forall_not_mem.2 fun e he => hnew ?_
        obtain ⟨l, hl, hkey, -⟩ := Listeners.mem_bucket.1 he
        exact hkey ▸ h.listed l hl
      rw [hempty, h.next]
      exact .inr rfl
  constructor
  case ordered => exact h.ordered.add target kind handler
  case next => exact congrArg (· + 1) h.next
  case keys =>
    show ((push _ _ b.table).map (·.1)).Nodup
    rw [keys_push]
    split
    · exact h.keys
    · next hnew => exact List.nodup_append.2 ⟨h.keys, List.nodup_singleton _, by
        rintro key hkey _ hlast rfl
        exact hnew (List.mem_singleton.1 hlast ▸ hkey)⟩
  case filled =>
    intro row hrow
    rcases hrows row hrow with ⟨hold, -⟩ | rfl
    · exact h.filled row hold
    · simp
  case bucket =>
    intro row hrow
    rw [Listeners.bucket_add]
    rcases hrows row hrow with ⟨hold, hother⟩ | rfl
    · rw [if_neg hother, h.bucket row hold]
    · rw [if_pos rfl]
  case listed =>
    intro l hl
    show l.key ∈ (push _ _ b.table).map (·.1)
    rw [keys_push]
    rcases List.mem_append.1 hl with hl | hl
    · have hold := h.listed l hl
      split
      · exact hold
      · exact List.mem_append_left _ hold
    · rw [List.mem_singleton.1 hl]
      split
      · assumption
      · exact List.mem_append_right _ (List.mem_singleton_self _)

theorem sift (h : b.Keeps ls) (keep : Nat × α → Bool) : (b.sift keep).Keeps (ls.sift keep) := by
  have hrows : ∀ row, row ∈ (b.sift keep).table ↔
      ∃ old ∈ b.table, row = (old.1, old.2.filter keep) ∧ row.2 ≠ [] := by
    intro row
    rw [Buckets.sift, mem_dropEmpty, List.mem_map]
    constructor
    · rintro ⟨⟨old, hold, rfl⟩, hfilled⟩
      exact ⟨old, hold, rfl, hfilled⟩
    · rintro ⟨old, hold, rfl, hfilled⟩
      exact ⟨⟨old, hold, rfl⟩, hfilled⟩
  constructor
  case ordered => exact h.ordered.sift keep
  case next => exact h.next
  case keys =>
    refine List.Nodup.sublist (List.Sublist.map _ List.filter_sublist) ?_
    rw [List.map_map]
    exact h.keys
  case filled =>
    intro row hrow
    obtain ⟨_, _, _, hfilled⟩ := (hrows row).1 hrow
    exact hfilled
  case bucket =>
    intro row hrow
    obtain ⟨old, hold, rfl, -⟩ := (hrows row).1 hrow
    rw [Listeners.bucket_sift, h.bucket old hold]
  case listed =>
    intro l hl
    obtain ⟨hold, hkeep⟩ := List.mem_filter.1 hl
    obtain ⟨row, hrow, hkey⟩ := List.mem_map.1 (h.listed l hold)
    have hentry : l.entry ∈ row.2.filter keep := by
      refine List.mem_filter.2 ⟨?_, hkeep⟩
      rw [h.bucket row hrow]
      exact Listeners.mem_bucket.2 ⟨l, hold, hkey.symm, rfl⟩
    exact List.mem_map.2 ⟨_, (hrows _).2 ⟨row, hrow, rfl, List.ne_nil_of_mem hentry⟩, hkey⟩

theorem mem_entriesOf (h : b.Keeps ls) :
    entry ∈ entriesOf b.table ↔ ∃ l ∈ ls.entries, l.entry = entry := by
  rw [Buckets.mem_entriesOf]
  constructor
  · rintro ⟨row, hrow, hentry⟩
    rw [h.bucket row hrow] at hentry
    obtain ⟨l, hl, -, hl'⟩ := Listeners.mem_bucket.1 hentry
    exact ⟨l, hl, hl'⟩
  · rintro ⟨l, hl, rfl⟩
    obtain ⟨row, hrow, hkey⟩ := List.mem_map.1 (h.listed l hl)
    refine ⟨row, hrow, ?_⟩
    rw [h.bucket row hrow]
    exact Listeners.mem_bucket.2 ⟨l, hl, hkey.symm, rfl⟩

/-- No number stands twice in the table. -/
theorem nodup_numbers (h : b.Keeps ls) : ((entriesOf b.table).map (·.1)).Nodup := by
  rw [entriesOf, List.map_flatMap, List.nodup_flatMap]
  constructor
  · intro row hrow
    rw [h.bucket row hrow]
    exact h.ordered.nodup_bucket row.1
  · refine (List.pairwise_map.1 h.keys).imp_of_mem fun {row row'} hrow hrow' hne => ?_
    intro n hn hn'
    obtain ⟨e, he, rfl⟩ := List.mem_map.1 hn
    obtain ⟨e', he', heq⟩ := List.mem_map.1 hn'
    rw [h.bucket row hrow] at he
    rw [h.bucket row' hrow'] at he'
    obtain ⟨l, hl, hkey, rfl⟩ := Listeners.mem_bucket.1 he
    obtain ⟨l', hl', hkey', rfl⟩ := Listeners.mem_bucket.1 he'
    rw [h.ordered.unique hl' hl heq] at hkey'
    exact hne (hkey.symm.trans hkey')

/-- A removal takes the entry of the number out of the table and the list. -/
theorem remove_eq (h : b.Keeps ls) (number : Nat) :
    b.remove number = (ls.handler? number, b.sift (·.1 != number)) := by
  have hhandler : ((entriesOf b.table).find? (·.1 == number)).map (·.2) = ls.handler? number := by
    refine Option.ext fun handler => ?_
    rw [h.ordered.handler?_eq_some, ← h.mem_entriesOf, Option.map_eq_some_iff]
    constructor
    · rintro ⟨e, hfind, rfl⟩
      obtain ⟨he, rfl⟩ := (find?_number_eq_some h.nodup_numbers).1 hfind
      exact he
    · intro hentry
      exact ⟨_, (find?_number_eq_some h.nodup_numbers).2 ⟨hentry, rfl⟩, rfl⟩
  unfold Buckets.remove
  rw [take_eq h.nodup_numbers, hhandler]
  rfl

theorem remove (h : b.Keeps ls) (number : Nat) :
    (b.remove number).2.Keeps (ls.remove number) := by
  rw [h.remove_eq, h.ordered.remove_eq_sift]
  exact h.sift _

/-- The table after the removal of a number that nobody has is the table before. -/
theorem remove_unknown (h : b.Keeps ls) (hunknown : ∀ l ∈ ls.entries, l.number ≠ number) :
    (b.remove number).2 = b := by
  rw [h.remove_eq]
  have hother : ∀ e ∈ entriesOf b.table, e.1 ≠ number := by
    intro e he
    obtain ⟨l, hl, rfl⟩ := h.mem_entriesOf.1 he
    exact hunknown l hl
  have hfilled : dropEmpty b.table = b.table :=
    List.filter_eq_self.2 fun row hrow => by simpa using h.filled row hrow
  unfold Buckets.sift
  rw [filter_rows_self hother, hfilled]

theorem handle (h : b.Keeps ls) (request : Request α) :
    (b.handle request).1 = (ls.handle request).1 ∧
      (b.handle request).2.Keeps (ls.handle request).2 := by
  cases request with
  | add target kind handler => exact ⟨congrArg Answer.added h.next, h.add target kind handler⟩
  | remove number =>
    refine ⟨?_, h.remove number⟩
    show Answer.removed (b.remove number).1 = Answer.removed (ls.handler? number)
    rw [h.remove_eq]
  | retain keep => exact ⟨rfl, h.sift fun e => keep e.2⟩

/-! ## What the table shows -/

theorem on_eq (h : b.Keeps ls) (target : NodeId) (kind : EventKind) :
    b.on target kind = ls.bucket (target, kind) := by
  unfold on
  rcases hfind : b.table.find? fun row => row.1 = (target, kind) with _ | row
  · rw [hfind, Option.map_none, Option.getD_none, eq_comm, List.eq_nil_iff_forall_not_mem]
    intro e he
    obtain ⟨l, hl, hkey, -⟩ := Listeners.mem_bucket.1 he
    obtain ⟨row, hrow, hrowkey⟩ := List.mem_map.1 (h.listed l hl)
    exact List.find?_eq_none.1 hfind row hrow (by simp [hrowkey, hkey])
  · have hkey : row.1 = (target, kind) := by simpa using List.find?_some hfind
    rw [hfind, Option.map_some, Option.getD_some, ← hkey]
    exact h.bucket row (List.mem_of_find?_eq_some hfind)

/-- The table and the list have the same entries. -/
theorem size_eq (h : b.Keeps ls) : b.size = ls.size := by
  have hlist : (ls.entries.map Listener.entry).Nodup := by
    refine List.Nodup.of_map (·.1) ?_
    rw [List.map_map]
    exact h.ordered.nodup
  have hperm : (entriesOf b.table).Perm (ls.entries.map Listener.entry) := by
    refine (List.perm_ext_iff_of_nodup (List.Nodup.of_map _ h.nodup_numbers) hlist).2 fun e => ?_
    rw [h.mem_entriesOf, List.mem_map]
  rw [size_eq_length, hperm.length_eq, List.length_map]
  rfl

theorem isEmpty_iff (h : b.Keeps ls) : b.isEmpty ↔ b.size = 0 := by
  rw [h.size_eq, Buckets.isEmpty, List.isEmpty_iff, Listeners.size, List.length_eq_zero_iff]
  constructor
  · intro htable
    refine List.eq_nil_iff_forall_not_mem.2 fun l hl => ?_
    have hkey := h.listed l hl
    rw [htable] at hkey
    cases hkey
  · intro hentries
    refine List.eq_nil_iff_forall_not_mem.2 fun row hrow => h.filled row hrow ?_
    rw [h.bucket row hrow, Listeners.bucket, hentries]
    rfl

end Keeps

theorem Runs.keeps {requests : List (Request α)} {answers : List (Answer α)}
    (h : Runs requests answers b) :
    answers = (({} : Listeners α).run requests).1 ∧
      b.Keeps (({} : Listeners α).run requests).2 := by
  induction h with
  | start => exact ⟨rfl, Keeps.start⟩
  | step request _ ih =>
    obtain ⟨hanswers, hkeeps⟩ := ih
    obtain ⟨hanswer, hnext⟩ := hkeeps.handle request
    rw [Listeners.run_append]
    exact ⟨by rw [hanswers, hanswer], hnext⟩
  | reorder hperm _ ih => exact ⟨ih.1, ih.2.reorder hperm⟩

/-- Whatever has been asked of a table that was empty first, it has answered as the list does in
    which the listeners stand in the order of their registration, and from now on shows what the
    list shows. The numbers it has given out increase. What waits on a node for a kind of event is
    what waits there in the list, in its order; the size is the length of the list, and the table
    has no row exactly when it is 0. The removal of a number takes the one listener that has it out
    of the list, or, if there is none, leaves table and list as they are. -/
theorem as_list {requests : List (Request α)} {answers : List (Answer α)}
    (h : Runs requests answers b) :
    let ls := (({} : Listeners α).run requests).2
    answers = (({} : Listeners α).run requests).1 ∧
    (answers.filterMap Answer.number?).Pairwise (· < ·) ∧
    ls.entries.Pairwise (·.number < ·.number) ∧
    (∀ target kind, b.on target kind = (ls.on target kind).map fun l => (l.number, l.handler)) ∧
    b.size = ls.size ∧ (b.isEmpty ↔ b.size = 0) ∧
    ∀ number,
      (∃ before l rest, ls.entries = before ++ l :: rest ∧ l.number = number ∧
        (b.remove number).1 = some l.handler ∧ (ls.remove number).entries = before ++ rest) ∨
      ((∀ l ∈ ls.entries, l.number ≠ number) ∧ b.remove number = (none, b) ∧
        ls.remove number = ls) := by
  intro ls
  obtain ⟨rfl, hkeeps⟩ := h.keeps
  refine ⟨rfl, (Listeners.numbers_run _ requests).2.2, hkeeps.ordered.increasing,
    fun target kind => ?_, hkeeps.size_eq, hkeeps.isEmpty_iff, fun number => ?_⟩
  · exact (hkeeps.on_eq target kind).trans (ls.map_entry_on target kind).symm
  · rcases hkeeps.ordered.remove_cases number with
      ⟨before, l, rest, hlist, hnumber, hhandler, hremove⟩ | ⟨hunknown, hhandler, hremove⟩
    · refine .inl ⟨before, l, rest, hlist, hnumber, ?_, hremove⟩
      rw [hkeeps.remove_eq, hhandler]
    · refine .inr ⟨hunknown, Prod.ext ?_ (hkeeps.remove_unknown hunknown), hremove⟩
      rw [hkeeps.remove_eq, hhandler]

/-- Listeners on two nodes: one is taken away, and with it the row of its node, one is dropped for
    its handler, a number that nobody has is to be taken away, and one more is added. -/
def deskRequests : List (Request Nat) :=
  [.add (.slot 1) .click 7, .add (.slot 2) .click 8, .add (.slot 1) .click 9, .remove 2,
    .retain (· != 7), .remove 5, .add (.slot 2) .click 7]

/-- The table after the requests, with its rows in the other order. -/
def deskTable : Buckets Nat where
  table := [((.slot 2, .click), [(4, 7)]), ((.slot 1, .click), [(3, 9)])]
  next := 5

theorem as_list_desk :
    Runs deskRequests [.added 1, .added 2, .added 3, .removed (some 8), .retained, .removed none,
      .added 4] deskTable ∧
    deskTable.on (.slot 1) .click = [(3, 9)] ∧ deskTable.size = 2 := by
  have hruns : Runs deskRequests [.added 1, .added 2, .added 3, .removed (some 8), .retained,
      .removed none, .added 4] deskTable := by
    have hstart : Runs (α := Nat) [] [] {} := .start
    have hadded := ((hstart.step (.add (.slot 1) .click 7)).step (.add (.slot 2) .click 8)).step
      (.add (.slot 1) .click 9)
    have hdropped := ((hadded.step (.remove 2)).step (.retain (· != 7))).step (.remove 5)
    exact (hdropped.step (.add (.slot 2) .click 7)).reorder (List.Perm.swap _ _ _)
  obtain ⟨-, -, -, hon, hsize, -⟩ := as_list hruns
  exact ⟨hruns, hon (.slot 1) .click, hsize⟩

end Buckets

end Repeater
