import EventStream.Proofs.Pipeline.Accounts

namespace EventStream.Pipeline

variable {π σ : Type} [Stage π] {router : Router σ} {processor : π} {inputs outputs : Nat} {t : σ}
  {p q : Pipeline π σ} {trace : List (Label π)} {now : Instant}

theorem step?_eq_some (h : p.step? (some router) now = some q) :
    p.dispatch? router = some q ∨ p.send? = some q ∨ p.receive? now = some q ∨
      p.finish? = some q := by
  unfold step? at h
  simp only [Option.bind_some, Option.or_eq_some_iff] at h
  tauto

omit [Stage π] in
theorem work_eq (p : Pipeline π σ) :
    p.work = 3 * p.input.items.length + 2 * p.waiting.toList.length + p.output.items.length +
      p.isRunning.toNat := by
  unfold work Queue.size
  cases p.waiting <;> cases p.isRunning <;> rfl

/-- What a task does by itself is a step of a run, and leaves less to do. -/
theorem exists_step (ho : p.output.isOpen = true) (h : p.step? (some router) now = some q) :
    q.work < p.work ∧ q.fed = p.fed ∧ ∃ l, Step router p l q ∧ l ≠ .shutDown := by
  rw [work_eq, work_eq]
  rcases step?_eq_some h with hdispatch | hsend | hreceive | hfinish
  · obtain ⟨payload, rest, metrics, hi, hq⟩ := dispatch?_eq_some hdispatch
    refine ⟨?_, by rw [hq], .dispatched payload, .dispatch (by rw [hi]; rfl) hdispatch, nofun⟩
    simp [hq, hi, isRunning]
  · obtain ⟨payload, hw, hq⟩ := send?_eq_some_of_isOpen ho hsend
    refine ⟨?_, by rw [hq], .sent, .send hsend, nofun⟩
    simp only [hq, hw, isRunning, Option.toList, List.length_append, List.length_cons,
      List.length_nil]
    omega
  · obtain ⟨hr, e, rest, metrics, hi, hq⟩ := receive?_eq_some hreceive
    obtain ⟨_, hw⟩ := isReady_iff.mp hr
    refine ⟨?_, by rw [hq], .received p.processor e now, .receive (by rw [hi]; rfl) hreceive, nofun⟩
    -- three for the event pay for a payload, if it yields one
    have hp := (Stage.receive p.processor e now).payload.length_toList_le
    simp only [hq, hi, hw, isRunning, Option.toList_none, List.length_cons, List.length_nil]
    omega
  · obtain ⟨hr, hi, _, hq⟩ := finish?_eq_some hfinish
    obtain ⟨hrun, hw⟩ := isReady_iff.mp hr
    refine ⟨?_, by rw [hq]; rfl, .finished p.processor, .finish hfinish, nofun⟩
    rw [hq, hi, hw, hrun]
    simp [stop, Queue.close, isRunning]

theorem Reaches.exists_final_of_closed (hf : p.fed = false)
    (h : Reaches router (.start processor inputs outputs t) trace p) :
    ∃ later q, Reaches router (.start processor inputs outputs t) (trace ++ later) q ∧
      Final router q ∧ .shutDown ∉ later := by
  induction hn : p.work using Nat.strong_induction_on generalizing p trace with
  | _ n ih =>
    by_cases hs : ∀ now, p.step? (some router) now = none
    · exact ⟨[], p, by rwa [List.append_nil], ⟨hf, hs⟩, by simp⟩
    · obtain ⟨now, hs⟩ := not_forall.mp hs
      obtain ⟨q, hq⟩ := Option.ne_none_iff_exists'.mp hs
      obtain ⟨_, _, ha⟩ := h.accounts
      obtain ⟨hw, hqf, l, hl, hd⟩ := exists_step ha.isOpen hq
      obtain ⟨later, last, hr, hfinal, hlater⟩ := ih q.work (hn ▸ hw) (hqf.trans hf) (h.next hl) rfl
      rw [List.append_assoc] at hr
      exact ⟨l :: later, last, hr, hfinal, by simp [hd.symm, hlater]⟩

/-- The input may still have to be closed. -/
theorem Reaches.exists_final (h : Reaches router (.start processor inputs outputs t) trace p) :
    ∃ later q, Reaches router (.start processor inputs outputs t) (trace ++ later) q ∧
      Final router q ∧ .shutDown ∉ later := by
  cases hf : p.fed with
  | false => exact h.exists_final_of_closed hf
  | true =>
    obtain ⟨later, q, hr, hq, hd⟩ := (h.next (.closeInput hf)).exists_final_of_closed rfl
    rw [List.append_assoc] at hr
    exact ⟨.inputClosed :: later, q, hr, hq, by simp [hd]⟩

end EventStream.Pipeline
