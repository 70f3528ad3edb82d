import BoardFarm.Hub.Client

/-!
# Copies kept by clients

A client that keeps a copy of what it subscribes to starts with an empty one where the
subscription was switched on, and takes over every update that it has received since.

* `ClientSession.copy`: the copy behind the messages so far.
* `ClientSession.Keeps`: a connected subscriber's copy is a given table.
* `ClientSession.Keeps.append`, `ClientSession.keeps_of_start`: later and first messages.
-/

namespace BoardFarm.ClientSession

variable {α : Type} {into : α → Update → α} {init : α} {mark : ClientSession → Option Nat}
  {c c' : ClientSession} {table : α} {l : List ClientMessage}

/-- The copy of a client that starts behind a number of messages. -/
def copy (into : α → Update → α) (init : α) (c : ClientSession) (start : Nat) : α :=
  ((c.sent.drop start).flatMap ClientMessage.updates).foldl into init

/-- While the client is connected and subscribed, its copy is a table. The mark is the number of
messages before the subscription was switched on. -/
def Keeps (into : α → Update → α) (init : α) (mark : ClientSession → Option Nat)
    (c : ClientSession) (table : α) : Prop :=
  c.connected = true → ∀ start, mark c = some start →
    start ≤ c.sent.length ∧ c.copy into init start = table

/-- Further messages are taken over. -/
theorem Keeps.append (h : c.Keeps into init mark table)
    (hconnected : c'.connected = true → c.connected = true) (hmark : mark c' = mark c)
    (hl : c'.sent = c.sent ++ l) :
    c'.Keeps into init mark ((l.flatMap ClientMessage.updates).foldl into table) := by
  intro hc' start hstart
  rw [hmark] at hstart
  obtain ⟨hle, hcopy⟩ := h (hconnected hc') start hstart
  refine ⟨?_, ?_⟩
  · rw [hl, List.length_append]
    omega
  · unfold copy at hcopy ⊢
    rw [hl, List.drop_append_of_le_length hle, List.flatMap_append, List.foldl_append, hcopy]

/-- The first messages behind the start make the copy. -/
theorem keeps_of_start (hmark : mark c' = some c.sent.length) (hl : c'.sent = c.sent ++ l)
    (htable : (l.flatMap ClientMessage.updates).foldl into init = table) :
    c'.Keeps into init mark table := by
  intro _ start hstart
  rw [hmark] at hstart
  cases hstart
  unfold copy
  rw [hl, List.drop_left, List.length_append]
  exact ⟨Nat.le_add_right _ _, htable⟩

/-- A subscriber that is told of a change takes it over. -/
theorem Keeps.tell (h : c.Keeps into init mark table) (u : Update)
    (hmark : ∀ m, mark (c.send m) = mark c) :
    (if c.connected && (mark c).isSome then c.sendUpdates [u] else c).Keeps into init mark
      (into table u) := by
  split
  · have hsent : (c.send ⟨none, [u]⟩).sent = c.sent ++ [⟨none, [u]⟩] := rfl
    refine h.append ?_ (hmark ⟨none, [u]⟩) hsent
    exact fun hc => hc
  · rename_i hdeaf
    intro hconnected start hstart
    simp [hconnected, hstart] at hdeaf

/-- Updates that leave every copy alone do not count. -/
theorem foldl_ignored {updates : List Update} (h : ∀ u ∈ updates, ∀ table, into table u = table)
    (table : α) : updates.foldl into table = table := by
  induction updates generalizing table with
  | nil => rfl
  | cons u rest ih =>
    rw [List.foldl_cons, h u (List.mem_cons_self ..)]
    exact ih (fun u' hu' => h u' (List.mem_cons_of_mem _ hu')) table

/-- Sending updates, also none, lets a subscriber receive just these. -/
theorem sent_sendUpdates (c : ClientSession) (updates : List Update) :
    ∃ l, (c.sendUpdates updates).sent = c.sent ++ l ∧
      l.flatMap ClientMessage.updates = updates := by
  unfold sendUpdates
  split
  · rename_i hempty
    exact ⟨[], by simp, (List.isEmpty_iff.mp hempty).symm⟩
  · exact ⟨[⟨none, updates⟩], rfl, by simp⟩

end BoardFarm.ClientSession
