/-
SchemaClient.Proofs.Generation.Capacity — runs into an output that holds only so much.

What a run has to write is settled before the output is asked to take any of it. So an output that
holds less, or takes it in smaller pieces, changes nothing about the bytes but where they end.

* `Sink.limited`, `Sink.filled` — such an output, before and after.
* `generate_limited` — a run into such an output, compared to the run into one without limits.
-/
import SchemaClient.Proofs.Generation.Outcome
import SchemaClient.Proofs.Generation.Schedule

namespace SchemaClient

/-! ## Sinks -/

namespace Sink

/-- An empty sink that takes `room` bytes in all and at most `chunk` per call. -/
def limited (room chunk : Nat) : Sink := { room := some room, perCall := some chunk }

/-- A sink that was given bytes until it had taken `bytes` in all. -/
def filled (room chunk : Nat) (bytes : Bytes) : Sink :=
  { limited (room - bytes.length) chunk with content := bytes }

end Sink

/-! ## Runs -/

section

variable {σ : Type} {schedule : List SectionKind} {source : Source (StateM σ)} {config : Config}
  {outputRoot : String} {state : σ} {report : Report}

/-- A run into a sink without limits ends with a report once the types are listed. -/
theorem generateWith_unlimited (schedule : List SectionKind) (config : Config) (outputRoot : String)
    {next : σ} {catalog : TypeCatalog}
    (htypes : source.resourceTypes state = (.ok catalog, next)) :
    let generation := (generateWith schedule source config outputRoot (.sink {}) state).1
    let board := finalBoard schedule source ⟨catalog, config, outputRoot⟩ next
    generation.result = .ok board.report ∧
      generation.outlet.bytes = Utf8.encode (board.fileText config outputRoot) := by
  obtain ⟨hresult, houtlet⟩ :=
    generateWith_eq schedule source config outputRoot (.sink {}) htypes
  rw [Outlet.conclude_of_le (by simp) (by simp)] at hresult houtlet
  exact ⟨hresult, congrArg Outlet.bytes houtlet⟩

/-- A run into a sink without limits that ends with a report writes some bytes. Into a sink that has
room for them, the same run ends with the same report and leaves them there, and the sink is flushed
and then shut down after the last of them. Into one that has not, it ends with the error that the sink
is full, and leaves what there is room for; the sink is neither flushed nor shut down. -/
theorem generate_limited
    (h : (generateWith schedule source config outputRoot (.sink {}) state).1.result = .ok report)
    (room chunk : Nat) (hchunk : 1 ≤ chunk) :
    let bytes := (generateWith schedule source config outputRoot (.sink {}) state).1.outlet.bytes
    let limited :=
      (generateWith schedule source config outputRoot (.sink (.limited room chunk)) state).1
    (bytes.length ≤ room →
      limited.result = .ok report ∧
      limited.outlet = .sink { Sink.filled room chunk bytes with
        events := [(bytes.length, .flush), (bytes.length, .shutdown)] }) ∧
    (room < bytes.length →
      limited.result = .error (.io .full) ∧
      limited.outlet = .sink (Sink.filled room chunk (bytes.take room))) := by
  intro bytes limited
  obtain ⟨catalog, next, htypes, hreport⟩ := report_eq_of_ok h
  -- the text of the file is the same for all sinks
  generalize htext : (finalBoard schedule source ⟨catalog, config, outputRoot⟩ next).fileText
    config outputRoot = text
  have hbytes : bytes = Utf8.encode text :=
    (generateWith_unlimited schedule config outputRoot htypes).2.trans (congrArg Utf8.encode htext)
  obtain ⟨hresult, houtlet⟩ :=
    generateWith_eq schedule source config outputRoot (.sink (.limited room chunk)) htypes
  rw [htext, ← hreport] at hresult
  rw [htext] at houtlet
  have hcall : (Sink.limited room chunk).perCall ≠ some 0 := by
    intro hzero
    cases hzero
    cases hchunk
  rw [hbytes]
  constructor
  · intro hfits
    have hroom : ∀ room', (Sink.limited room chunk).room = some room' →
        (Utf8.encode text).length ≤ room' := by
      intro room' hroom'
      cases hroom'
      exact hfits
    rw [Outlet.conclude_of_le hcall hroom] at hresult houtlet
    exact ⟨hresult, houtlet⟩
  · intro hlength
    rw [Outlet.conclude_of_lt hcall rfl hlength] at hresult houtlet
    exact ⟨hresult, houtlet⟩

end

/-- A run into a sink that is one byte too small and takes three bytes at a time. -/
theorem generate_limited_malformed : ∃ room,
    room < (generateWith [] (malformed.source : Source (StateM Unit)) {} "" (.sink {})
      ()).1.outlet.bytes.length ∧
    (generateWith [] (malformed.source : Source (StateM Unit)) {} "" (.sink (.limited room 3))
      ()).1.result = .error (.io .full) ∧
    (generateWith [] (malformed.source : Source (StateM Unit)) {} "" (.sink (.limited room 3))
      ()).1.outlet =
        .sink (.filled room 3 ((generateWith [] (malformed.source : Source (StateM Unit)) {} ""
          (.sink {}) ()).1.outlet.bytes.take room)) := by
  have htypes : (malformed.source : Source (StateM Unit)).resourceTypes () = (.ok [], ()) := rfl
  obtain ⟨hreport, hbytes⟩ :=
    generateWith_unlimited [] {} "" htypes
  have hbreak : (Utf8.encode "\n").length = 1 := by decide +kernel
  have hpos : 0 < (generateWith [] (malformed.source : Source (StateM Unit)) {} "" (.sink {})
      ()).1.outlet.bytes.length := by
    simp only [hbytes, Board.fileText, Utf8.encode_append, List.length_append]
    omega
  have hlength := Nat.sub_one_lt_of_lt hpos
  exact ⟨_, hlength, (generate_limited hreport _ 3 (by decide)).2 hlength⟩

end SchemaClient
