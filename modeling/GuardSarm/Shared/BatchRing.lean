import GuardSarm.Lib.Linked

/-!
# The ring of the batch queue

The active agents in a singly linked ring of slots, with a cursor at the slot to
drain next and a second pointer to its predecessor. Slots are addresses; a pointer
is `none` for NULL, and a result `none` is the dereference of a NULL pointer, or a
search that has not ended after as many passes as there are slots.

* `RingOk r l`: the pointers of `r` make the list `l` a ring, the cursor stands at
  its head and the other pointer at its last slot;
* `ringAppend_spec`, `drainRing_spec`, `dropFromRing_spec`: the list after the operations.
-/

namespace GuardSarm.BatchQueue

open List

open Linked

/-- The fields of `w_rr_queue_t` and of the slots that make up the ring. -/
structure Ring where
  head : Option Nat
  tail : Option Nat
  cursor : Option Nat
  prevCursor : Option Nat
  next : Nat → Option Nat
  inRing : Nat → Bool
  ringSlots : Nat

namespace Ring

def empty : Ring := ⟨none, none, none, none, fun _ => none, fun _ => false, 0⟩

/-- `ring_append`. -/
def ringAppend (r : Ring) (s : Nat) : Option Ring :=
  match r.head with
  | none => some
      { head := some s, tail := some s, cursor := some s, prevCursor := some s
        next := Function.update r.next s (some s)
        inRing := Function.update r.inRing s true
        ringSlots := r.ringSlots + 1 }
  | some head => do
    let tail ← r.tail
    return { r with
      next := Function.update (Function.update r.next s (some head)) tail (some s)
      tail := some s
      prevCursor := if r.cursor = r.head then some s else r.prevCursor
      inRing := Function.update r.inRing s true
      ringSlots := r.ringSlots + 1 }

/-- `ring_remove_node`. -/
def ringRemoveNode (r : Ring) (node : Nat) (prev : Option Nat) : Ring :=
  match r.head, prev with
  | some _, some prev =>
    if node = prev then
      { head := none, tail := none, cursor := none, prevCursor := none
        next := Function.update r.next node none
        inRing := Function.update r.inRing node false
        ringSlots := 0 }
    else
      { head := if r.head = some node then r.next node else r.head
        tail := if r.tail = some node then some prev else r.tail
        cursor := if r.cursor = some node then r.next node else r.cursor
        prevCursor := if r.prevCursor = some node then some prev else r.prevCursor
        next := Function.update (Function.update r.next prev (r.next node)) node none
        inRing := Function.update r.inRing node false
        ringSlots := if r.ringSlots ≠ 0 then r.ringSlots - 1 else 0 }
  | _, _ => r

/-- The ring part of `batch_queue_drain_next_ex` when the cursor stands at `slot`. -/
def drainRing (r : Ring) (slot : Nat) : Ring :=
  let prev := if r.prevCursor.isSome then r.prevCursor else r.tail
  ringRemoveNode { r with cursor := r.next slot, prevCursor := prev } slot prev

/-- The loop of `ring_find_prev`. -/
def findPrevLoop (r : Ring) (slot : Nat) : Nat → Nat → Option (Option Nat)
  | 0, _ => none
  | fuel + 1, p =>
    match r.next p with
    | none => some none
    | some nx =>
      if nx = slot then some (some p)
      else if some nx = r.head then some none
      else findPrevLoop r slot fuel nx

/-- `ring_find_prev`. -/
def ringFindPrev (r : Ring) (slot : Nat) : Option (Option Nat) :=
  match r.head with
  | none => some none
  | some head => findPrevLoop r slot r.ringSlots head

/-- The slots of the ring, from its head on. -/
def toList (r : Ring) : List Nat := walk r.next r.ringSlots r.head

end Ring

structure RingOk (r : Ring) (l : List Nat) : Prop where
  distinct : l.Nodup
  head : r.head = l.head?
  tail : r.tail = l.getLast?
  cursor : r.cursor = l.head?
  prevCursor : r.prevCursor = l.getLast?
  links : Leads r.next l l.head?
  member : ∀ a, r.inRing a = true ↔ a ∈ l
  count : r.ringSlots = l.length

variable {r : Ring} {l : List Nat} {a : Nat}

theorem ringOk_empty : RingOk Ring.empty [] :=
  ⟨.nil, rfl, rfl, rfl, rfl, trivial, by simp [Ring.empty], rfl⟩

theorem RingOk.toList (ok : RingOk r l) : r.toList = l := by
  rw [Ring.toList, ok.count, ok.head]
  by_cases filled : l = []
  · subst filled
    rfl
  · exact ok.links.walk filled

theorem ringAppend_spec (ok : RingOk r l) (new : a ∉ l) :
    ∃ after, r.ringAppend a = some after ∧ RingOk after (l ++ [a]) := by
  have member : ∀ c, Function.update r.inRing a true c = true ↔ c ∈ l ++ [a] := by
    intro c
    rw [mem_append, mem_singleton]
    by_cases same : c = a
    · simp [same]
    · rw [Function.update_of_ne same, ok.member]
      simp [same]
  have distinct : (l ++ [a]).Nodup := by
    rw [nodup_append]
    refine ⟨ok.distinct, nodup_singleton a, ?_⟩
    intro c inside d last
    rw [mem_singleton.1 last]
    rintro rfl
    exact new inside
  have count : r.ringSlots + 1 = (l ++ [a]).length := by rw [ok.count, length_append]; rfl
  unfold Ring.ringAppend
  obtain rfl | ⟨xs, p, rfl⟩ := l.eq_nil_or_concat'
  · simp only [ok.head, head?_nil]
    exact ⟨_, rfl, distinct, rfl, rfl, rfl, rfl, ⟨by simp, trivial⟩, member, count⟩
  · have head : ∃ h, (xs ++ [p]).head? = some h := by
      cases xs <;> simp
    obtain ⟨h, head⟩ := head
    have kept : (xs ++ [p] ++ [a]).head? = some h := by rw [head?_append, head]; rfl
    have links := ok.links.push ok.distinct new
    rw [head] at links
    simp only [ok.head, head, ok.tail, getLast?_concat, Option.bind_eq_bind, Option.bind_some,
      Option.pure_def, ok.cursor, if_true]
    refine ⟨_, rfl, distinct, ?_, by simp, ?_, by simp, ?_, member, count⟩
    · rw [kept]
    · rw [kept]
    · rw [kept]
      exact links

theorem drainRing_spec (ok : RingOk r (a :: l)) : RingOk (r.drainRing a) l := by
  have head : r.head = some a := ok.head
  have prev : (if r.prevCursor.isSome = true then r.prevCursor else r.tail) =
      (a :: l).getLast? := by
    rw [ok.prevCursor, ok.tail, ite_self]
  have member : ∀ c, Function.update r.inRing a false c = true ↔ c ∈ l := by
    intro c
    by_cases same : c = a
    · have out : a ∉ l := (nodup_cons.1 ok.distinct).1
      simp [same, out]
    · rw [Function.update_of_ne same, ok.member]
      simp [same]
  have distinct := (nodup_cons.1 ok.distinct).2
  unfold Ring.drainRing
  simp only [prev]
  obtain rfl | ⟨ys, p, rfl⟩ := l.eq_nil_or_concat'
  · simp only [Ring.ringRemoveNode, head, getLast?_singleton, if_true]
    exact ⟨.nil, rfl, rfl, rfl, rfl, trivial, member, rfl⟩
  · have last : (a :: (ys ++ [p])).getLast? = some p := by
      rw [← cons_append, getLast?_concat]
    have apart : ¬ a = p := by
      rintro rfl
      exact (nodup_cons.1 ok.distinct).1 (by simp)
    have first : r.next a = (ys ++ [p]).head? := by
      rw [ok.links.1]
      cases ys <;> rfl
    have other : ¬ r.next a = some a := by
      intro same
      rw [first] at same
      exact (nodup_cons.1 ok.distinct).1 (mem_of_mem_head? same)
    simp only [Ring.ringRemoveNode, head, last, if_neg apart, if_true, ok.tail, Option.some.injEq,
      if_neg (Ne.symm apart), if_neg other]
    refine ⟨distinct, first, by simp, first, by simp, ?_, member, ?_⟩
    · exact ok.links.unlink_head ok.distinct
    · rw [ok.count]
      simp

/-- The search stops at the first cell whose pointer leads to the slot. -/
theorem findPrevLoop_spec {xs : List Nat} {p : Nat} (links : Leads r.next (xs ++ [p]) (some a))
    (other : ∀ c ∈ (xs ++ [p]).tail, c ≠ a) {h : Nat} (headed : r.head = some h)
    (fresh : ∀ c ∈ (xs ++ [p]).tail, c ≠ h) {fuel : Nat} (enough : xs.length < fuel) :
    ∀ first, (xs ++ [p]).head? = some first → r.findPrevLoop a fuel first = some (some p) := by
  induction xs generalizing fuel with
  | nil =>
    intro first start
    obtain rfl : p = first := by simpa using start
    obtain ⟨fuel, rfl⟩ : ∃ n, fuel = n + 1 := ⟨fuel - 1, by omega⟩
    have last : r.next p = some a := links.1
    rw [Ring.findPrevLoop, last]
    simp
  | cons c xs ih =>
    intro first start
    obtain rfl : c = first := by simpa using start
    obtain ⟨fuel, rfl⟩ : ∃ n, fuel = n + 1 := ⟨fuel - 1, by omega⟩
    obtain ⟨d, second⟩ : ∃ d, (xs ++ [p]).head? = some d := by
      cases xs <;> simp
    have next : r.next c = some d := by
      rw [links.1, append_eq, second]
      rfl
    have inside : d ∈ xs ++ [p] := mem_of_mem_head? second
    have apart : ¬ d = a := other d inside
    have later : ¬ some d = r.head := by
      rw [headed, Option.some.injEq]
      exact fresh d inside
    simp only [length_cons] at enough
    rw [Ring.findPrevLoop, next]
    simp only [if_neg apart, if_neg later]
    exact ih links.2 (fun e member => other e (mem_of_mem_tail member))
      (fun e member => fresh e (mem_of_mem_tail member)) (by omega) d second

/-- The ring after a slot has been taken out behind its predecessor. -/
theorem ringRemoveNode_spec {xs ys : List Nat} {p : Nat} (ok : RingOk r (xs ++ [p] ++ a :: ys)) :
    RingOk (r.ringRemoveNode a (some p)) (xs ++ [p] ++ ys) := by
  have sub : (xs ++ [p] ++ ys).Sublist (xs ++ [p] ++ a :: ys) :=
    List.Sublist.append_left (sublist_cons_self a ys) _
  have split := nodup_append.1 ok.distinct
  have before : a ∉ xs ++ [p] := fun inside => split.2.2 a inside a mem_cons_self rfl
  have after : a ∉ ys := (nodup_cons.1 split.2.1).1
  have apart : ¬ a = p := by
    rintro rfl
    exact before (by simp)
  obtain ⟨h, first⟩ : ∃ h, (xs ++ [p]).head? = some h := by
    cases xs <;> simp
  have head : (xs ++ [p] ++ a :: ys).head? = some h := by rw [head?_append, first]; rfl
  have head' : (xs ++ [p] ++ ys).head? = some h := by rw [head?_append, first]; rfl
  have other : ¬ some h = some a := by
    rw [Option.some.injEq]
    rintro rfl
    exact before (mem_of_mem_head? first)
  have last : (if (xs ++ [p] ++ a :: ys).getLast? = some a then some p
      else (xs ++ [p] ++ a :: ys).getLast?) = (xs ++ [p] ++ ys).getLast? := by
    obtain rfl | ⟨zs, z, rfl⟩ := ys.eq_nil_or_concat'
    · simp
    · have end' : (xs ++ [p] ++ a :: (zs ++ [z])).getLast? = some z := by
        rw [← cons_append, ← append_assoc, getLast?_concat]
      have final : (xs ++ [p] ++ (zs ++ [z])).getLast? = some z := by
        rw [← append_assoc, getLast?_concat]
      have differs : ¬ some z = some a := by
        rw [Option.some.injEq]
        rintro rfl
        exact after (by simp)
      rw [end', final, if_neg differs]
  have member : ∀ c, Function.update r.inRing a false c = true ↔ c ∈ xs ++ [p] ++ ys := by
    intro c
    by_cases same : c = a
    · subst same
      have out : c ∉ xs ++ [p] ++ ys := fun inside => (mem_append.1 inside).elim before after
      simp only [Function.update_self, Bool.false_eq_true, out]
    · rw [Function.update_of_ne same, ok.member]
      simp [same]
  have links := ok.links.unlink ok.distinct
  rw [head, ← head'] at links
  simp only [Ring.ringRemoveNode, ok.head, head, ok.tail, ok.cursor, ok.prevCursor, if_neg apart,
    if_neg other, last]
  refine ⟨ok.distinct.sublist sub, head'.symm, rfl, head'.symm, rfl, links, member, ?_⟩
  rw [ok.count]
  simp

/-- The same for the head of the ring, whose predecessor is the last slot. -/
theorem ringRemoveHead_spec {ys : List Nat} {p : Nat} (ok : RingOk r (a :: (ys ++ [p]))) :
    RingOk (r.ringRemoveNode a (some p)) (ys ++ [p]) := by
  have drained := drainRing_spec ok
  have last : (a :: (ys ++ [p])).getLast? = some p := by
    rw [← cons_append, getLast?_concat]
  have apart : ¬ p = a := by
    rintro rfl
    exact (nodup_cons.1 ok.distinct).1 (by simp)
  have other : ¬ r.next a = some a := by
    have first : r.next a = (ys ++ [p]).head? := by
      rw [ok.links.1]
      cases ys <;> rfl
    intro same
    rw [first] at same
    exact (nodup_cons.1 ok.distinct).1 (mem_of_mem_head? same)
  have same : r.ringRemoveNode a (some p) = r.drainRing a := by
    simp [Ring.drainRing, Ring.ringRemoveNode, ok.head, ok.cursor, ok.prevCursor, last, other]
  rw [same]
  exact drained

/-- `batch_queue_drop_agent` finds the predecessor of a slot in the ring and takes the slot out. -/
theorem dropFromRing_spec (ok : RingOk r l) (inside : a ∈ l) :
    ∃ p, r.ringFindPrev a = some (some p) ∧ RingOk (r.ringRemoveNode a (some p)) (l.erase a) := by
  obtain ⟨xs, ys, rfl⟩ := mem_iff_append.1 inside
  have split := nodup_append.1 ok.distinct
  have before : a ∉ xs := fun member => split.2.2 a member a mem_cons_self rfl
  have after : a ∉ ys := (nodup_cons.1 split.2.1).1
  rw [erase_append_right _ before, erase_cons_head]
  obtain rfl | ⟨xs, p, rfl⟩ := xs.eq_nil_or_concat'
  · have head : r.head = some a := ok.head
    obtain rfl | ⟨ys, p, rfl⟩ := ys.eq_nil_or_concat'
    · refine ⟨a, ?_, ?_⟩
      · have next : r.next a = some a := ok.links.1
        simp [Ring.ringFindPrev, head, ok.count, Ring.findPrevLoop, next]
      · have drained := drainRing_spec ok
        have prev : r.prevCursor = some a := ok.prevCursor
        simpa [Ring.drainRing, Ring.ringRemoveNode, head, prev] using drained
    · refine ⟨p, ?_, ringRemoveHead_spec ok⟩
      rw [Ring.ringFindPrev, head]
      have links : Leads r.next (a :: ys ++ [p]) (some a) := ok.links
      refine findPrevLoop_spec links (fun c member same => after (same ▸ member)) head
        (fun c member same => after (same ▸ member)) ?_ a rfl
      rw [ok.count]
      simp
  · refine ⟨p, ?_, ringRemoveNode_spec ok⟩
    obtain ⟨h, first⟩ : ∃ h, (xs ++ [p]).head? = some h := by
      cases xs <;> simp
    have head : r.head = some h := by rw [ok.head, head?_append, first]; rfl
    have links := (leads_append.1 ok.links).1
    rw [head?_cons, Option.some_or] at links
    rw [Ring.ringFindPrev, head]
    refine findPrevLoop_spec links (fun c member same => ?_) head (fun c member same => ?_) ?_ h first
    · exact before (same ▸ mem_of_mem_tail member)
    · subst same
      cases xs with
      | nil => simp at member
      | cons d xs =>
        obtain rfl : d = c := by simpa using first
        have once := (nodup_cons.1 split.1).1
        exact once member
    · rw [ok.count]
      simp

end GuardSarm.BatchQueue
