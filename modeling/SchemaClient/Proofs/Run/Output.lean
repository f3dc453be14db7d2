/-
SchemaClient.Proofs.Run.Output — what comes of writing.

A text is written piece by piece, and a sink may take each piece in several calls. None of that can
be seen from outside: writing pieces one after the other is writing the whole text at once.

* `Outlet.append_append` — two pieces are written like one.
* `Outlet.finish_eq_conclude` — writing the deferred lines and closing, likewise.
* `Sink.write_of_le`, `Sink.write_of_lt` — what fits is taken, in however many calls.
* `Outlet.conclude_of_le`, `Outlet.conclude_of_lt` — the same for a whole file.
* `Outlet.bytes_of_append` — what was written without an error is there.
-/
import SchemaClient.Proofs.Text.Utf8
import SchemaClient.Run.Output

namespace SchemaClient

namespace Sink

variable (sink : Sink)

/-! ## Writing bytes -/

theorem take_take (first second : Bytes) :
    (sink.take first).take second = sink.take (first ++ second) := by
  obtain ⟨content, room, perCall, events⟩ := sink
  cases room <;> simp [take, Nat.sub_sub]

/-- A sink that has room for something takes nothing only if no call takes anything. -/
theorem perCall_of_accepts_eq_zero {wanted : Nat} (hwanted : 0 < wanted)
    (hroom : sink.room ≠ some 0) (h : sink.accepts wanted = 0) : sink.perCall = some 0 := by
  have hfits : 0 < sink.room.getD wanted := by
    cases hr : sink.room with
    | none => exact hwanted
    | some r => exact Nat.pos_of_ne_zero fun hzero => hroom (hr.trans (congrArg some hzero))
  have hcall : sink.perCall.getD wanted = 0 := by
    simp only [accepts] at h
    omega
  cases hp : sink.perCall with
  | none =>
    rw [hp, Option.getD_none] at hcall
    exact absurd hcall (Nat.ne_of_gt hwanted)
  | some p =>
    rw [hp, Option.getD_some] at hcall
    rw [hcall]

/-- A sink takes what fits, in however many calls. -/
theorem write_eq (bytes : Bytes) :
    sink.write bytes =
      if bytes = [] then (sink, .ok ())
      else if sink.room = some 0 then (sink, .error (.io .full))
      else if sink.perCall = some 0 then (sink, .error (.io .nothingTaken))
      else
        (sink.take (bytes.take (sink.room.getD bytes.length)),
          if bytes.length ≤ sink.room.getD bytes.length then .ok () else .error (.io .full)) := by
  fun_induction write sink bytes with
  | case1 sink => simp
  | case2 sink bytes hbytes hroom => simp [hbytes, hroom]
  | case3 sink bytes hbytes hroom taken htaken ih =>
    have hcall : sink.perCall ≠ some 0 := by
      intro hzero
      simp [taken, accepts, hzero] at htaken
    have hle : taken ≤ bytes.length := by simp only [taken, accepts]; omega
    have hfits : taken ≤ sink.room.getD bytes.length := by simp only [taken, accepts]; omega
    have hroom' : (sink.take (bytes.take taken)).room = sink.room.map (· - taken) := by
      simp [take, Nat.min_eq_left hle]
    have hcall' : (sink.take (bytes.take taken)).perCall = sink.perCall := rfl
    rw [if_neg hbytes, if_neg hroom, if_neg hcall, ih, hcall', if_neg hcall, hroom', take_take]
    -- `n` is how much there is room for
    generalize hn : sink.room.getD bytes.length = n at hfits ⊢
    have hrest : (bytes.take taken ++ (bytes.drop taken).take (n - taken)) = bytes.take n := by
      rw [← List.take_add, Nat.add_sub_cancel' hfits]
    by_cases hdrop : bytes.drop taken = []
    · have hall : bytes.length ≤ taken := by simpa using hdrop
      rw [if_pos hdrop, if_pos (by omega), List.take_of_length_le hall,
        List.take_of_length_le (by omega : bytes.length ≤ n)]
    · have hmore : taken < bytes.length := by simpa using hdrop
      rw [if_neg hdrop]
      cases hr : sink.room with
      | none =>
        have hall : n = bytes.length := by rw [← hn, hr]; rfl
        rw [if_neg (by simp), if_pos (by simp), if_pos (by omega : bytes.length ≤ n)]
        simp only [Option.map_none, Option.getD_none, List.length_drop]
        rw [← hall, hrest]
      | some r =>
        have hall : n = r := by rw [← hn, hr]; rfl
        subst hall
        simp only [Option.map_some, Option.getD_some, Option.some.injEq, List.length_drop]
        by_cases hfull : n - taken = 0
        · rw [if_pos hfull, if_neg (by omega), (by omega : n = taken)]
        · rw [if_neg hfull, hrest]
          by_cases hend : bytes.length ≤ n
          · rw [if_pos hend, if_pos (by omega)]
          · rw [if_neg hend, if_neg (by omega)]
  | case4 sink bytes hbytes hroom taken htaken =>
    have hlength : 0 < bytes.length := List.length_pos_iff.mpr hbytes
    have hcall := sink.perCall_of_accepts_eq_zero hlength hroom (Nat.eq_zero_of_not_pos htaken)
    rw [if_neg hbytes, if_neg hroom, if_pos hcall]

/-- Bytes one after the other are written like all of them at once. -/
theorem write_append (first second : Bytes) :
    sink.write (first ++ second) =
      match sink.write first with
      | (after, .ok ()) => after.write second
      | failed => failed := by
  rw [sink.write_eq first]
  by_cases hfirst : first = []
  · rw [if_pos hfirst, hfirst, List.nil_append]
  · have hboth : first ++ second ≠ [] := by simp [hfirst]
    rw [sink.write_eq (first ++ second), if_neg hfirst, if_neg hboth]
    by_cases hroom : sink.room = some 0
    · rw [if_pos hroom, if_pos hroom]
    · by_cases hcall : sink.perCall = some 0
      · rw [if_neg hroom, if_neg hroom, if_pos hcall, if_pos hcall]
      · rw [if_neg hroom, if_neg hroom, if_neg hcall, if_neg hcall, List.length_append]
        have hcall' : (sink.take first).perCall ≠ some 0 := hcall
        cases hr : sink.room with
        | none =>
          have hroom' : (sink.take first).room = none := by simp [take, hr]
          simp only [Option.getD_none, Nat.le_refl, if_true, List.take_length, write_eq, hroom',
            if_neg hcall', take_take]
          rw [← List.length_append, List.take_length]
          by_cases hsecond : second = []
          · simp [hsecond]
          · simp [hsecond]
        | some r =>
          have hroom' : (sink.take first).room = some (r - first.length) := by simp [take, hr]
          simp only [Option.getD_some]
          by_cases hfits : first.length ≤ r
          · simp only [if_pos hfits, List.take_of_length_le hfits, write_eq, hroom',
              if_neg hcall', take_take, Option.getD_some, List.take_append, Option.some.injEq]
            by_cases hsecond : second = []
            · simp [hsecond, hfits]
            · have hlength : 0 < second.length := List.length_pos_iff.mpr hsecond
              rw [if_neg hsecond]
              by_cases hfull : r - first.length = 0
              · rw [if_pos hfull, if_neg (by omega), hfull, List.take_zero, List.append_nil]
              · rw [if_neg hfull]
                by_cases hend : second.length ≤ r - first.length
                · rw [if_pos hend, if_pos (by omega)]
                · rw [if_neg hend, if_neg (by omega)]
          · rw [if_neg hfits, if_neg (by omega), List.take_append_of_le_length (by omega)]

/-- What was written without an error is there. -/
theorem content_of_write {bytes : Bytes} {after : Sink} (h : sink.write bytes = (after, .ok ())) :
    after.content = sink.content ++ bytes := by
  rw [write_eq] at h
  split at h
  · rename_i hbytes
    cases h
    simp [hbytes]
  · split at h
    · cases h
    · split at h
      · cases h
      · split at h
        · rename_i hfits
          cases h
          rw [List.take_of_length_le hfits]
          rfl
        · cases h

theorem take_nil : sink.take [] = sink := by
  obtain ⟨content, room, perCall, events⟩ := sink
  cases room <;> simp [take]

variable {sink} {bytes : Bytes}

/-- Bytes that fit are taken. -/
theorem write_of_le (hcall : sink.perCall ≠ some 0)
    (hfits : ∀ room, sink.room = some room → bytes.length ≤ room) :
    sink.write bytes = (sink.take bytes, .ok ()) := by
  rw [write_eq]
  by_cases hbytes : bytes = []
  · rw [if_pos hbytes, hbytes, take_nil]
  · have hlength : 0 < bytes.length := List.length_pos_iff.2 hbytes
    have hroom : sink.room ≠ some 0 := fun hzero => absurd (hfits 0 hzero) (by omega)
    have hall : bytes.length ≤ sink.room.getD bytes.length := by
      cases hr : sink.room with
      | none => exact Nat.le_refl _
      | some room => exact hfits room hr
    rw [if_neg hbytes, if_neg hroom, if_neg hcall, if_pos hall, List.take_of_length_le hall]

/-- Of bytes that do not fit, those are taken that do, and the sink is full. -/
theorem write_of_lt {room : Nat} (hcall : sink.perCall ≠ some 0) (hroom : sink.room = some room)
    (hlength : room < bytes.length) :
    sink.write bytes = (sink.take (bytes.take room), .error (.io .full)) := by
  have hbytes : bytes ≠ [] := List.length_pos_iff.1 (by omega)
  rw [write_eq, if_neg hbytes, hroom]
  by_cases hzero : room = 0
  · rw [if_pos (by rw [hzero]), hzero, List.take_zero, take_nil]
  · rw [if_neg (by simpa using hzero), if_neg hcall, Option.getD_some, if_neg (by omega)]

end Sink

/-! ## Writing texts -/

namespace Outlet

/-- The text of some lines. -/
def linesText : List String → String
  | [] => ""
  | line :: rest => line ++ "\n" ++ linesText rest

theorem linesText_append (first second : List String) :
    linesText (first ++ second) = linesText first ++ linesText second := by
  induction first with
  | nil => simp [linesText]
  | cons line rest ih => simp only [List.cons_append, linesText, ih, String.append_assoc]

/-- Texts in ascending order. -/
def ascending (texts : List String) : List String := texts.mergeSort fun a b => decide (a ≤ b)

theorem pairwise_ascending (texts : List String) : (ascending texts).Pairwise (· ≤ ·) := by
  have hsorted : (ascending texts).Pairwise fun a b => decide (a ≤ b) = true := by
    refine List.pairwise_mergeSort (fun a b c hab hbc => ?_) (fun a b => ?_) texts
    · simp only [decide_eq_true_eq] at hab hbc ⊢
      exact String.le_trans hab hbc
    · simp only [Bool.or_eq_true, decide_eq_true_eq]
      exact String.le_total a b
  exact hsorted.imp fun hle => by simpa using hle

/-- The order in which texts come does not matter for the texts in ascending order. -/
theorem ascending_eq_of_perm {texts texts' : List String} (h : texts.Perm texts') :
    ascending texts = ascending texts' := by
  refine List.Perm.eq_of_pairwise (fun _ _ _ _ => String.le_antisymm) (pairwise_ascending texts)
    (pairwise_ascending texts') ?_
  exact (List.mergeSort_perm texts _).trans (h.trans (List.mergeSort_perm texts' _).symm)

/-- Everything that an outlet holds. -/
def bytes : Outlet → Bytes
  | sink s => s.content
  | buffer text => Utf8.encode text

/-- Write a text and close the sink if there is one. -/
def conclude (outlet : Outlet) (text : String) : Outlet × Except Error Unit :=
  match outlet.append text with
  | (sink s, .ok ()) => (sink s.close, .ok ())
  | other => other

/-- Two pieces are written like one. -/
theorem append_append (outlet : Outlet) (first second : String) :
    outlet.append (first ++ second) =
      match outlet.append first with
      | (after, .ok ()) => after.append second
      | failed => failed := by
  cases outlet with
  | buffer own => simp [append, String.append_assoc]
  | sink s =>
    simp only [append, Utf8.encode_append, Sink.write_append]
    cases s.write (Utf8.encode first) with
    | mk after result => cases result <;> rfl

theorem append_empty (outlet : Outlet) : outlet.append "" = (outlet, .ok ()) := by
  cases outlet with
  | buffer own => simp [append]
  | sink s => simp [append, Utf8.encode_empty, Sink.write_eq]

theorem writeLine_eq (outlet : Outlet) (text : String) :
    outlet.writeLine text = outlet.append (text ++ "\n") := by
  rw [append_append]
  rfl

theorem writeLines_eq (outlet : Outlet) (lines : List String) :
    outlet.writeLines lines = outlet.append (linesText lines) := by
  induction lines generalizing outlet with
  | nil => rw [linesText, append_empty]; rfl
  | cons line rest ih =>
    rw [linesText, append_append, ← writeLine_eq, writeLines]
    cases outlet.writeLine line with
    | mk after result =>
      cases result with
      | error error => rfl
      | ok _ => exact ih after

theorem finish_eq_conclude (outlet : Outlet) (deferred : List String) :
    outlet.finish deferred =
      outlet.conclude (linesText (ascending deferred)) := by
  have hfinish : outlet.finish deferred =
      match outlet.writeLines (ascending deferred) with
      | (sink s, .ok ()) => (sink s.close, .ok ())
      | other => other := rfl
  rw [hfinish, writeLines_eq, conclude]

theorem conclude_append (outlet : Outlet) (first second : String) :
    outlet.conclude (first ++ second) =
      match outlet.append first with
      | (after, .ok ()) => after.conclude second
      | failed => failed := by
  unfold conclude
  rw [append_append]
  cases outlet.append first with
  | mk after result =>
    cases result with
    | error error => cases after <;> rfl
    | ok _ => rfl

/-- What was written without an error is there. -/
theorem bytes_of_append {outlet after : Outlet} {text : String}
    (h : outlet.append text = (after, .ok ())) :
    after.bytes = outlet.bytes ++ Utf8.encode text := by
  cases outlet with
  | buffer own =>
    cases h
    exact Utf8.encode_append own text
  | sink s =>
    simp only [append, Prod.mk.injEq] at h
    obtain ⟨rfl, hresult⟩ := h
    exact s.content_of_write (Prod.ext rfl hresult)

theorem bytes_of_conclude {outlet after : Outlet} {text : String}
    (h : outlet.conclude text = (after, .ok ())) :
    after.bytes = outlet.bytes ++ Utf8.encode text := by
  unfold conclude at h
  cases happend : outlet.append text with
  | mk middle result =>
    rw [happend] at h
    cases result with
    | error error => cases middle <;> cases h
    | ok _ =>
      have hmiddle := bytes_of_append happend
      cases middle <;> (cases h; exact hmiddle)

/-- A file that fits is written, and the sink is closed. -/
theorem conclude_of_le {sink : Sink} {text : String} (hcall : sink.perCall ≠ some 0)
    (hfits : ∀ room, sink.room = some room → (Utf8.encode text).length ≤ room) :
    (Outlet.sink sink).conclude text = (.sink (sink.take (Utf8.encode text)).close, .ok ()) := by
  have happend : (Outlet.sink sink).append text = (.sink (sink.take (Utf8.encode text)), .ok ()) := by
    simp only [append, Sink.write_of_le hcall hfits]
  rw [conclude, happend]

/-- Of a file that does not fit the beginning is written, and the sink stays open. -/
theorem conclude_of_lt {sink : Sink} {text : String} {room : Nat} (hcall : sink.perCall ≠ some 0)
    (hroom : sink.room = some room) (hlength : room < (Utf8.encode text).length) :
    (Outlet.sink sink).conclude text =
      (.sink (sink.take ((Utf8.encode text).take room)), .error (.io .full)) := by
  have happend : (Outlet.sink sink).append text =
      (.sink (sink.take ((Utf8.encode text).take room)), .error (.io .full)) := by
    simp only [append, Sink.write_of_lt hcall hroom hlength]
  rw [conclude, happend]

end Outlet

end SchemaClient
