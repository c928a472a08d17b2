import EventStore.Proofs.Controller.Roles

/-!
# What a run of the controller publishes and sends

A run hands the controller messages one after the other. Its trace records, for each message,
what the controller published on the node's bus while handling it and what it sent to the
outside (client replies and peer traffic), in order. Statements about what a controller says
along a run are statements about its trace.

A trace splits as its messages do (`trace_append`), and an entry of it is the handling of one
message from the controller and world the messages before it left (`trace_eq_append_cons`), so
every fact about one handled message carries over to every entry of every trace.
-/

namespace EventStore

namespace Controller

/-- One handled message, with what the controller published for it on the bus and what it sent
to clients and peers. -/
structure Handled where
  message : Message
  published : List Message
  sent : List Traffic

/-- What handling message `m` from controller `c` and world `w` led to. -/
def Handled.of (c : Controller) (w : World) (m : Message) : Handled :=
  let r := ((handle m).run { ctl := c, world := w }).2
  ⟨m, r.out.toList, r.world.traffic.toList.drop w.traffic.size⟩

/-- The trace of a run: every message handled in order, with what it led to. -/
def trace (c : Controller) (w : World) : List Message → List Handled
  | [] => []
  | m :: ms =>
    let r := ((handle m).run { ctl := c, world := w }).2
    Handled.of c w m :: trace r.ctl r.world ms

@[simp] theorem trace_nil (c : Controller) (w : World) : trace c w [] = [] := rfl

@[simp] theorem handleAll_cons (c : Controller) (w : World) (m : Message) (ms : List Message) :
    handleAll c w (m :: ms) =
      handleAll ((handle m).run { ctl := c, world := w }).2.ctl
        ((handle m).run { ctl := c, world := w }).2.world ms := rfl

theorem trace_cons (c : Controller) (w : World) (m : Message) (ms : List Message) :
    trace c w (m :: ms) =
      Handled.of c w m :: trace (handleAll c w [m]).1 (handleAll c w [m]).2 ms := rfl

@[simp] theorem length_trace (c : Controller) (w : World) (ms : List Message) :
    (trace c w ms).length = ms.length := by
  induction ms generalizing c w with
  | nil => rfl
  | cons m ms ih => simp [trace, ih]

/-- The trace of two runs one after the other is the first's followed by the second's, the
second run starting where the first ended. -/
theorem trace_append (c : Controller) (w : World) (ms ms' : List Message) :
    trace c w (ms ++ ms') =
      trace c w ms ++ trace (handleAll c w ms).1 (handleAll c w ms).2 ms' := by
  induction ms generalizing c w with
  | nil => rfl
  | cons m ms ih => simp only [List.cons_append, trace, ih, handleAll_cons]

theorem trace_append_singleton (c : Controller) (w : World) (ms : List Message) (m : Message) :
    trace c w (ms ++ [m]) =
      trace c w ms ++ [Handled.of (handleAll c w ms).1 (handleAll c w ms).2 m] := by
  rw [trace_append]
  rfl

/-- An entry of a trace is the handling of one message of the run, from where the messages
before it left the controller and world; the entries before it are their trace. -/
theorem trace_eq_append_cons {c : Controller} {w : World} {ms : List Message}
    {pre post : List Handled} {g : Handled} (h : trace c w ms = pre ++ g :: post) :
    ∃ ms₁ m ms₂, ms = ms₁ ++ m :: ms₂ ∧ pre = trace c w ms₁ ∧
      g = Handled.of (handleAll c w ms₁).1 (handleAll c w ms₁).2 m ∧
      post = trace (handleAll c w (ms₁ ++ [m])).1 (handleAll c w (ms₁ ++ [m])).2 ms₂ := by
  induction ms generalizing c w pre with
  | nil => cases pre <;> simp at h
  | cons m ms ih =>
    cases pre with
    | nil =>
      simp only [trace, List.nil_append, List.cons.injEq] at h
      exact ⟨[], m, ms, rfl, rfl, h.1.symm, h.2.symm⟩
    | cons g₀ pre =>
      simp only [trace, List.cons_append, List.cons.injEq] at h
      obtain ⟨ms₁, m', ms₂, rfl, hpre, hg, hpost⟩ := ih h.2
      exact ⟨m :: ms₁, m', ms₂, rfl, by rw [trace_cons, ← h.1, hpre]; rfl, hg, hpost⟩

/-- Every entry of a trace is the handling of one of its messages. -/
theorem exists_of_mem_trace {c : Controller} {w : World} {ms : List Message} {g : Handled}
    (h : g ∈ trace c w ms) :
    ∃ ms₁ m ms₂, ms = ms₁ ++ m :: ms₂ ∧ g = Handled.of (handleAll c w ms₁).1 (handleAll c w ms₁).2 m := by
  obtain ⟨pre, post, hs⟩ := List.append_of_mem h
  obtain ⟨ms₁, m, ms₂, hms, -, hg, -⟩ := trace_eq_append_cons hs
  exact ⟨ms₁, m, ms₂, hms, hg⟩

end Controller

end EventStore
