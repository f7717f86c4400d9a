/-!
# Lists in order of first sight

Callers, errors and ancestors are kept in the order in which they were first met, each once.
`recordOnce` adds an entry at the end unless it is there already, and a list without its repetitions
is recorded entry by entry (`eraseDups_eq_foldl`).
-/

namespace ClassLinker

/-- The list with an entry at its end, or the list itself if it holds the entry already. -/
def recordOnce {α : Type} [DecidableEq α] (log : List α) (entry : α) : List α :=
  if entry ∈ log then log else log ++ [entry]

variable {α : Type} [DecidableEq α]

/-- Without its repetitions, a list holds every entry once. -/
theorem nodup_eraseDups (log : List α) : log.eraseDups.Nodup := by
  match log with
  | [] => exact List.nodup_nil
  | entry :: rest =>
    have shorter : (rest.filter fun other => !other == entry).length < rest.length + 1 :=
      Nat.lt_succ_of_le (List.length_filter_le ..)
    rw [List.eraseDups_cons, List.nodup_cons]
    refine ⟨fun mem => ?_, nodup_eraseDups _⟩
    simpa using (List.mem_filter.1 (List.mem_eraseDups.1 mem)).2
termination_by log.length

@[simp] theorem mem_recordOnce {log : List α} {entry other : α} :
    other ∈ recordOnce log entry ↔ other ∈ log ∨ other = entry := by
  unfold recordOnce; split <;> simp_all

/-- What is recorded is put at the end. -/
theorem prefix_recordOnce (log : List α) (entry : α) : log <+: recordOnce log entry := by
  unfold recordOnce
  split
  · exact List.prefix_rfl
  · exact List.prefix_append ..

theorem nodup_recordOnce {log : List α} (h : log.Nodup) (entry : α) :
    (recordOnce log entry).Nodup := by
  unfold recordOnce; split
  · exact h
  · rename_i hn
    exact List.nodup_append.2 ⟨h, by simp, fun a ha b hb => by
      rw [List.mem_singleton.1 hb]; rintro rfl; exact hn ha⟩

/-- A list loses its repetitions if its entries are recorded one by one. -/
theorem eraseDups_eq_foldl (log : List α) : log.eraseDups = log.foldl recordOnce [] := by
  have last : ∀ (log : List α) (entry : α),
      (log ++ [entry]).eraseDups = recordOnce log.eraseDups entry := by
    intro log entry
    rw [List.eraseDups_append, recordOnce]
    by_cases mem : entry ∈ log <;> simp [List.removeAll, mem, List.eraseDups_cons]
  have records : ∀ rest log : List α,
      (log ++ rest).eraseDups = rest.foldl recordOnce log.eraseDups := by
    intro rest
    induction rest with
    | nil => intro log; rw [List.append_nil]; rfl
    | cons entry rest ih =>
      intro log
      rw [List.append_cons, ih, last]
      rfl
  exact records log []

/-- Whether repetitions are dropped before or after other entries makes no difference. -/
theorem filter_eraseDups (keep : α → Bool) (log : List α) :
    log.eraseDups.filter keep = (log.filter keep).eraseDups := by
  have records : ∀ rest log : List α, (rest.foldl recordOnce log).filter keep =
      (rest.filter keep).foldl recordOnce (log.filter keep) := by
    intro rest
    induction rest with
    | nil => exact fun _ => rfl
    | cons entry rest ih =>
      intro log
      rw [List.foldl_cons, ih, List.filter_cons]
      by_cases kept : keep entry = true <;> by_cases mem : entry ∈ log <;>
        simp [recordOnce, List.filter_append, kept, mem]
  rw [eraseDups_eq_foldl, eraseDups_eq_foldl, records]
  rfl

/-- New entries that are no repetitions stay behind the others as they are. -/
theorem eraseDups_append_of_fresh {log new : List α} (nodup : new.Nodup)
    (fresh : ∀ entry ∈ new, entry ∉ log) : (log ++ new).eraseDups = log.eraseDups ++ new := by
  induction new generalizing log with
  | nil => simp
  | cons entry rest ih =>
    obtain ⟨once, nodup⟩ := List.nodup_cons.1 nodup
    have last : (log ++ [entry]).eraseDups = log.eraseDups ++ [entry] := by
      rw [eraseDups_eq_foldl, List.foldl_append, ← eraseDups_eq_foldl]
      refine if_neg fun mem => fresh entry List.mem_cons_self (List.mem_eraseDups.1 mem)
    rw [List.append_cons, ih nodup, last, ← List.append_cons]
    intro other later mem
    rcases List.mem_append.1 mem with mem | mem
    · exact fresh other (List.mem_cons_of_mem _ later) mem
    · rw [List.mem_singleton.1 mem] at later
      exact once later

end ClassLinker
