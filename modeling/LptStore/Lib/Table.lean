import Mathlib.Data.List.Induction
import Mathlib.Tactic.Common

/-!
# Bounded tables

A table is an array of keys beside an array of values, filled from the front and searched from the
front. Storing a value replaces that of the first entry found, or appends an entry while there is room.
What a table of `cap` entries holds after some stores is the last value of each of the first `cap`
distinct keys.
-/

namespace LptStore.Lib.Table

variable {κ ν : Type}

/-- The value of the first entry whose key passes the test. -/
def find (p : κ → Bool) : List (κ × ν) → Option ν
  | [] => none
  | e :: t => if p e.1 then some e.2 else find p t

/-- The value of the first entry whose key passes the test is replaced, if there is one. -/
def replace (p : κ → Bool) (v : ν) : List (κ × ν) → Option (List (κ × ν))
  | [] => none
  | e :: t => if p e.1 then some ((e.1, v) :: t) else (replace p v t).map (e :: ·)

/-- The value is stored in the first entry whose key passes the test, or in a new one, with the key `k`,
while there are fewer than `cap`. -/
def store (cap : Nat) (p : κ → Bool) (k : κ) (v : ν) (t : List (κ × ν)) : List (κ × ν) :=
  match replace p v t with
  | some t' => t'
  | none => if t.length < cap then t ++ [(k, v)] else t

section Search

variable {p : κ → Bool} {k : κ} {v : ν} {t : List (κ × ν)} {cap : Nat}

theorem find_append (t t' : List (κ × ν)) : find p (t ++ t') = (find p t).or (find p t') := by
  induction t with
  | nil => rfl
  | cons e t ih =>
    simp only [List.cons_append, find, ih]
    by_cases he : p e.1 = true
    · simp [he]
    · simp [he]

theorem find_eq_none : find p t = none ↔ ∀ e ∈ t, p e.1 = false := by
  induction t with
  | nil => simp [find]
  | cons e t ih =>
    unfold find
    by_cases he : p e.1 = true
    · simp [he]
    · simp [he, ih]

/-- There is an entry to replace exactly if one is found. -/
theorem replace_eq_none : replace p v t = none ↔ find p t = none := by
  induction t with
  | nil => simp [find, replace]
  | cons e t ih =>
    unfold find replace
    by_cases he : p e.1 = true
    · simp [he]
    · simp [he, ih]

theorem keys_replace {t' : List (κ × ν)} (h : replace p v t = some t') :
    t'.map Prod.fst = t.map Prod.fst := by
  induction t generalizing t' with
  | nil => cases h
  | cons e t ih =>
    unfold replace at h
    by_cases he : p e.1 = true
    · rw [if_pos he] at h
      cases h
      rfl
    · rw [if_neg he] at h
      obtain ⟨t₁, hrest, rfl⟩ := Option.map_eq_some_iff.mp h
      rw [List.map_cons, List.map_cons, ih hrest]

theorem store_of_some {t' : List (κ × ν)} (h : replace p v t = some t') : store cap p k v t = t' := by
  unfold store
  rw [h]

theorem store_of_none (h : replace p v t = none) :
    store cap p k v t = if t.length < cap then t ++ [(k, v)] else t := by
  unfold store
  rw [h]

theorem length_le_store : t.length ≤ (store cap p k v t).length := by
  cases h : replace p v t with
  | some t' =>
    have hlen := congrArg List.length (keys_replace h)
    rw [List.length_map, List.length_map] at hlen
    rw [store_of_some h]
    exact Nat.le_of_eq hlen.symm
  | none =>
    rw [store_of_none h]
    split_ifs
    · simp
    · exact Nat.le_refl _

/-- Where the larger table has not gone over the smaller bound, the smaller bound makes no difference. -/
theorem store_small {small : Nat} (hle : small ≤ cap) (h : (store cap p k v t).length ≤ small) :
    store small p k v t = store cap p k v t := by
  cases hr : replace p v t with
  | some t' => rw [store_of_some hr, store_of_some hr]
  | none =>
    rw [store_of_none hr] at h
    rw [store_of_none hr, store_of_none hr]
    by_cases hroom : t.length < cap
    · rw [if_pos hroom, List.length_append, List.length_singleton] at h
      rw [if_pos hroom, if_pos (by omega)]
    · rw [if_neg hroom, if_neg (by omega)]

end Search

section Keys

variable [DecidableEq κ] {k k' : κ} {v : ν} {t : List (κ × ν)} {cap : Nat}

/-- The test for a key. -/
def isKey (k x : κ) : Bool := decide (x = k)

@[simp] theorem isKey_eq_true {x : κ} : isKey k x = true ↔ x = k := decide_eq_true_iff

@[simp] theorem isKey_eq_false {x : κ} : isKey k x = false ↔ x ≠ k := decide_eq_false_iff_not

theorem find_key_eq_none : find (isKey k) t = none ↔ k ∉ t.map Prod.fst := by
  rw [find_eq_none]
  simp only [List.mem_map, not_exists, not_and, isKey_eq_false, ne_eq]

theorem find_replace {t' : List (κ × ν)} (h : replace (isKey k) v t = some t') :
    find (isKey k') t' = if k' = k then some v else find (isKey k') t := by
  induction t generalizing t' with
  | nil => cases h
  | cons e t ih =>
    unfold replace at h
    by_cases he : e.1 = k
    · rw [if_pos (isKey_eq_true.mpr he)] at h
      cases h
      subst he
      unfold find
      by_cases hk : k' = e.1
      · simp [hk]
      · simp [hk, Ne.symm hk]
    · rw [if_neg (by simpa using he)] at h
      obtain ⟨t₁, hrest, rfl⟩ := Option.map_eq_some_iff.mp h
      have hrest := ih hrest
      unfold find
      by_cases hk : e.1 = k'
      · subst hk
        simp [he]
      · simp [hk, hrest]

/-- What is found after a store. -/
theorem find_store : find (isKey k') (store cap (isKey k) k v t) =
    if k' = k ∧ (k ∈ t.map Prod.fst ∨ t.length < cap) then some v else find (isKey k') t := by
  cases h : replace (isKey k) v t with
  | some t' =>
    have hmem : k ∈ t.map Prod.fst := by
      by_contra hout
      rw [replace_eq_none.mpr (find_key_eq_none.mpr hout)] at h
      cases h
    rw [store_of_some h, find_replace h]
    simp only [hmem, true_or, and_true]
  | none =>
    have hout := find_key_eq_none.mp (replace_eq_none.mp h)
    rw [store_of_none h]
    by_cases hroom : t.length < cap
    · rw [if_pos hroom, find_append]
      by_cases hk : k' = k
      · subst hk
        rw [replace_eq_none.mp h]
        simp [find, hroom]
      · have hnone : find (isKey k') [(k, v)] = none := by
          simp [find, Ne.symm hk]
        simp [hnone, hk]
    · simp [hroom, hout]

theorem keys_store : (store cap (isKey k) k v t).map Prod.fst =
    if k ∉ t.map Prod.fst ∧ t.length < cap then t.map Prod.fst ++ [k] else t.map Prod.fst := by
  cases h : replace (isKey k) v t with
  | some t' =>
    have hmem : k ∈ t.map Prod.fst := by
      by_contra hout
      rw [replace_eq_none.mpr (find_key_eq_none.mpr hout)] at h
      cases h
    rw [store_of_some h, keys_replace h, if_neg (fun hc => hc.1 hmem)]
  | none =>
    have hout := find_key_eq_none.mp (replace_eq_none.mp h)
    rw [store_of_none h]
    by_cases hroom : t.length < cap
    · rw [if_pos hroom, if_pos ⟨hout, hroom⟩, List.map_append]
      rfl
    · rw [if_neg hroom, if_neg fun hc => hroom hc.2]

end Keys

section Stores

variable [DecidableEq κ]

/-- The table after some stores. -/
def stored (cap : Nat) (es : List (κ × ν)) : List (κ × ν) :=
  es.foldl (fun t e => store cap (isKey e.1) e.1 e.2 t) []

/-- The first `cap` distinct keys. -/
def firstKeys (cap : Nat) (es : List (κ × ν)) : List κ := (es.map Prod.fst).eraseDups.take cap

variable {cap : Nat} {k : κ}

theorem stored_snoc (es : List (κ × ν)) (e : κ × ν) :
    stored cap (es ++ [e]) = store cap (isKey e.1) e.1 e.2 (stored cap es) := by
  unfold stored
  rw [List.foldl_append]
  rfl

theorem eraseDups_snoc (ks : List κ) (k : κ) :
    (ks ++ [k]).eraseDups = if k ∈ ks then ks.eraseDups else ks.eraseDups ++ [k] := by
  rw [List.eraseDups_append]
  by_cases hk : k ∈ ks
  · simp [List.removeAll, hk]
  · simp [List.removeAll, hk, List.eraseDups_cons]

/-- The keys of the table, in the order in which they came. -/
theorem keys_stored (es : List (κ × ν)) : (stored cap es).map Prod.fst = firstKeys cap es := by
  induction es using List.reverseRecOn with
  | nil => simp [stored, firstKeys]
  | append_singleton es e ih =>
    have hlen : (stored cap es).length = (firstKeys cap es).length := by
      rw [← ih, List.length_map]
    rw [stored_snoc, keys_store, ih]
    unfold firstKeys at hlen ⊢
    rw [List.length_take] at hlen
    rw [List.map_append, List.map_singleton, eraseDups_snoc]
    by_cases hmem : e.1 ∈ es.map Prod.fst
    · rw [if_pos hmem, if_neg]
      rintro ⟨hout, hroom⟩
      -- With room left the table has every key so far.
      have hall : (es.map Prod.fst).eraseDups.take cap = (es.map Prod.fst).eraseDups :=
        List.take_of_length_le (by omega)
      rw [hall, List.mem_eraseDups] at hout
      exact hout hmem
    · have hout : e.1 ∉ (es.map Prod.fst).eraseDups.take cap := fun hin =>
        hmem (List.mem_eraseDups.mp (List.mem_of_mem_take hin))
      rw [if_neg hmem]
      by_cases hroom : (stored cap es).length < cap
      · rw [if_pos ⟨hout, hroom⟩, List.take_of_length_le, List.take_of_length_le]
        · rw [List.length_append, List.length_singleton]
          omega
        · omega
      · rw [if_neg fun hc => hroom hc.2, List.take_append_of_le_length]
        omega

/-- The last value of the key, if it is among the first `cap`. -/
def lastValue (cap : Nat) (k : κ) (es : List (κ × ν)) : Option ν :=
  if k ∈ firstKeys cap es then find (isKey k) es.reverse else none

/-- What is found in the table. -/
theorem find_stored (es : List (κ × ν)) : find (isKey k) (stored cap es) = lastValue cap k es := by
  unfold lastValue
  induction es using List.reverseRecOn with
  | nil => simp [stored, find]
  | append_singleton es e ih =>
    rw [stored_snoc, find_store, ih, List.reverse_append, List.reverse_singleton, List.singleton_append]
    have hkeys : (stored cap (es ++ [e])).map Prod.fst = firstKeys cap (es ++ [e]) :=
      keys_stored (es ++ [e])
    rw [stored_snoc, keys_store, keys_stored] at hkeys
    rw [keys_stored, ← hkeys]
    generalize firstKeys cap es = ks
    by_cases hk : k = e.1
    · subst hk
      by_cases hroom : (stored cap es).length < cap <;> by_cases hmem : e.1 ∈ ks <;>
        simp [find, hroom, hmem]
    · by_cases hnew : e.1 ∉ ks ∧ (stored cap es).length < cap <;> simp [find, hk, Ne.symm hk, hnew]

end Stores

end LptStore.Lib.Table
