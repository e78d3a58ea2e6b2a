import RtlBridge.Proofs.Emission.ModuleDeclarations
import RtlBridge.Proofs.Vhdl.AggregateSites
import RtlBridge.Proofs.Vhdl.StatementOrder

/-! Concurrent statements are unordered: in whatever order they stand, a design is accepted or not, and all that is
known about it is the same. -/

namespace RtlBridge

open List

open Vhdl (DesignUnit TypeMark Resolved elaborate)

theorem Table.mem_keys_iff {κ α : Type} [DecidableEq κ] {table : Table κ α} {key : κ} :
    key ∈ table.keys ↔ (table.find? key).isSome = true := by
  rw [find?, lookup_isSome_iff, keys, mem_map]
  exact exists_congr fun entry => and_congr_right fun _ => eq_comm.trans beq_iff_eq.symm

namespace Vhdl

theorem elaborate_eq_ok (ok : (elaborate parsed strict).result = .ok resolved) :
    (lower parsed).result = .ok resolved.design ∧ (resolve resolved.design strict).result = .ok resolved := by
  rw [elaborate, Traced.result_bind] at ok
  obtain ⟨design, lowerOk, resolveOk⟩ := bind_eq_ok.mp ok
  rw [(resolve_resolves resolveOk).sameDesign]
  exact ⟨lowerOk, resolveOk⟩

theorem Passage.Passes.arePlaced {names : NameTable} {passage : Passage} (passes : passage.Passes scope names)
    (placed : passage.source.IsPlaced places) : ArePlaced places passage.findings.aggregates := by
  obtain ⟨after, lowers⟩ := passes.lowers
  have lowered := Lowering.concurrent_isPlaced placed (toOption_eq_some.mp lowers)
  rw [← (ResolvedStmt.ofConcurrent_eq_ok passes.classifies).1] at lowered
  exact ResolvedStmt.check_arePlaced lowered passes.checks

namespace Reordered

variable {sources moved : List (Concurrent TypeMark)} {first second : Resolved}
  (reordered : Reordered sources moved first second)

include reordered

theorem exclusiveLines : first.exclusiveLines = second.exclusiveLines := by
  obtain ⟨before, after, perm, _, _, _, _, _, declared, isFirst, isSecond⟩ := reordered.passages
  rw [Resolved.exclusiveLines, Resolved.exclusiveLines, isFirst, isSecond]
  refine mergeSort_eq_of_perm ?_ ?_ ?_ (Findings.view_perm Findings.exclusiveLines rfl (fun _ _ => rfl) perm declared)
  · simpa using fun a b c => Nat.le_trans
  · simpa using Nat.le_total
  · simpa using fun a b => Nat.le_antisymm

theorem diagnostics : first.diagnostics.Perm second.diagnostics := by
  obtain ⟨before, after, perm, _, _, _, _, _, declared, isFirst, isSecond⟩ := reordered.passages
  rw [Resolved.diagnostics, Resolved.diagnostics, isFirst, isSecond]
  exact Findings.view_perm Findings.diagnostics rfl (fun _ _ => rfl) perm declared

theorem aggregateWidths (apart : sources.Pairwise Concurrent.Apart) (site : Site) :
    first.aggregateWidths.find? site = second.aggregateWidths.find? site := by
  obtain ⟨before, after, perm, each, rfl, _, _, _, declared, isFirst, isSecond⟩ := reordered.passages
  have disjoint : before.Pairwise fun a b =>
      ∀ x ∈ a.findings.aggregates, ∀ y ∈ b.findings.aggregates, x.1 ≠ y.1 := by
    refine (pairwise_map.mp apart).imp_of_mem fun inA inB isApart x inX y inY same => ?_
    obtain ⟨places, inside, outside⟩ := isApart
    obtain ⟨scopeA, passesA⟩ := each _ inA
    obtain ⟨scopeB, passesB⟩ := each _ inB
    exact passesB.arePlaced outside y inY (same ▸ passesA.arePlaced inside x inX)
  have entries (passages : List Passage) : (declared ++ Findings.concat (passages.map Passage.findings)).aggregates =
      declared.aggregates ++ passages.flatMap fun passage => passage.findings.aggregates := by
    rw [← flatMap_map, ← Findings.view_concat Findings.aggregates rfl fun _ _ => rfl]
    rfl
  rw [Resolved.aggregateWidths, Resolved.aggregateWidths, Table.find?_ofList, Table.find?_ofList, isFirst, isSecond,
    entries, entries, filter_append, filter_append, filter_flatMap_of_perm perm disjoint]

end Reordered

end Vhdl

/-! ### Shadows -/

namespace Emission

section

variable {parsed : DesignUnit TypeMark} {strict : Bool} {resolved : Resolved}

theorem nodup_lower_shadowedNames (ok : (elaborate parsed strict).result = .ok resolved) :
    ((shadowedNames resolved).map Text.lower).Nodup := by
  obtain ⟨lowerOk, resolveOk⟩ := Vhdl.elaborate_eq_ok ok
  have isScoped := Vhdl.isScoped_of_unit (Vhdl.unit_of_lower lowerOk)
  have distinct := (Vhdl.drivers_of_resolve resolveOk).1
  have declared {name : String} (shadowed : name ∈ shadowedNames resolved) :
      ∃ info, (name, info) ∈ resolved.design.declarations := by
    obtain ⟨drives, _⟩ := (mem_shadowedNames distinct name).mp shadowed
    obtain ⟨statement, member, writes⟩ := Vhdl.writtenBy_of_resolve resolveOk drives.mem_keys
    obtain ⟨info, _, isDeclared, _⟩ := isScoped.declares_written (Vhdl.resolve_resolves resolveOk) member writes
    exact ⟨info, isDeclared⟩
  refine (nodup_shadowedNames distinct).map_on fun one isOne other isOther same => ?_
  obtain ⟨info, oneDeclared⟩ := declared isOne
  obtain ⟨otherInfo, otherDeclared⟩ := declared isOther
  exact congrArg Prod.fst (inj_on_of_nodup_map isScoped.distinct oneDeclared otherDeclared same)

theorem lookup_shadows_eq_some_iff (ok : (elaborate parsed strict).result = .ok resolved) {shadow : String} :
    (shadows Dialect.legacy.profile resolved).lookup name = some shadow ↔
      name ∈ shadowedNames resolved ∧ freshShadow (resolved.names.keys.map Text.lower) name = shadow := by
  have lowerDistinct := nodup_lower_shadowedNames ok
  have isMap : shadows Dialect.legacy.profile resolved = (shadowedNames resolved).map fun name =>
      (name, freshShadow (resolved.names.keys.map Text.lower) name) := shadowsFor_eq_map lowerDistinct
  have distinct : (Table.mk (shadows Dialect.legacy.profile resolved)).keys.Nodup := by
    rw [Table.keys, isMap, map_map]
    change ((shadowedNames resolved).map id).Nodup
    rw [map_id]
    exact Nodup.of_map Text.lower lowerDistinct
  refine (Table.find?_eq_some_iff distinct).trans ?_
  simp [isMap]

theorem lookup_shadows_congr (ok : (elaborate parsed strict).result = .ok resolved)
    (othersOk : (elaborate moved strict).result = .ok others) (names : resolved.names.Agrees others.names)
    (drives : ∀ kind name, resolved.drivers.Drives kind name ↔ others.drivers.Drives kind name) (name : String) :
    (shadows Dialect.legacy.profile resolved).lookup name = (shadows Dialect.legacy.profile others).lookup name := by
  have distinct := (Vhdl.drivers_of_resolve (Vhdl.elaborate_eq_ok ok).2).1
  have othersDistinct := (Vhdl.drivers_of_resolve (Vhdl.elaborate_eq_ok othersOk).2).1
  have sameKeys (key : String) : key ∈ resolved.names.keys ↔ key ∈ others.names.keys := by
    rw [Table.mem_keys_iff, Table.mem_keys_iff, names]
  have sameShadow : freshShadow (resolved.names.keys.map Text.lower) name =
      freshShadow (others.names.keys.map Text.lower) name := freshShadow_congr fun n => by simp only [mem_map, sameKeys]
  ext shadow
  rw [lookup_shadows_eq_some_iff ok, lookup_shadows_eq_some_iff othersOk, sameShadow, mem_shadowedNames distinct,
    mem_shadowedNames othersDistinct, drives, Vhdl.NameTable.role?_congr names]

end

end Emission

namespace Vhdl

/-- Concurrent statements are unordered. A unit is elaborated in one order of its statements exactly if it is in any
other. The tables of names and drivers, the registers and the cases whose choices exclude each other are then the same,
and so are the registers behind wires. What belongs to one statement moves along with it: its process kind, and what
the checks find in it, which are diagnostics, width mismatches, aggregate widths and such cases. The table of all
aggregate widths is the same too, since no two statements of a parsed text have aggregates at one place; a unit that
was not parsed has to see to that. -/
theorem statements_are_unordered (parsed : DesignUnit TypeMark) (body : Architecture TypeMark)
    (is : parsed.architecture = some body) (statements : List (Concurrent TypeMark))
    (perm : body.statements.Perm statements) (strict : Bool) :
    let moved := parsed.withStatements statements
    ((∃ resolved, (elaborate parsed strict).result = .ok resolved) ↔
      ∃ resolved, (elaborate moved strict).result = .ok resolved) ∧
    ∀ first second, (elaborate parsed strict).result = .ok first → (elaborate moved strict).result = .ok second →
      (∀ name, first.names.find? name = second.names.find? name) ∧
      (∀ kind name, first.drivers.Drives kind name ↔ second.drivers.Drives kind name) ∧
      first.drivers.storage = second.drivers.storage ∧
      first.exclusiveLines = second.exclusiveLines ∧
      first.diagnostics.Perm second.diagnostics ∧
      (∃ before after : List Passage, before.Perm after ∧
        (∀ passage ∈ before, ∃ scope, passage.Passes scope first.names) ∧
        before.map Passage.source = body.statements ∧ after.map Passage.source = statements ∧
        before.map Passage.resolved = first.statements ∧ after.map Passage.resolved = second.statements ∧
        ∃ declared : Findings, first.findings = declared ++ Findings.concat (before.map Passage.findings) ∧
          second.findings = declared ++ Findings.concat (after.map Passage.findings)) ∧
      ((∃ text, (parse text).result = .ok parsed) ∨ body.statements.Pairwise Concurrent.Apart →
        ∀ site, first.aggregateWidths.find? site = second.aggregateWidths.find? site) ∧
      ∀ name, (Emission.shadows Dialect.legacy.profile first).lookup name =
        (Emission.shadows Dialect.legacy.profile second).lookup name := by
  intro moved
  have isMoved : moved.architecture = some { body with statements } := by
    change parsed.architecture.map _ = _
    rw [is]
    rfl
  have back : moved.withStatements body.statements = parsed := by
    obtain ⟨entity, architecture⟩ := parsed
    cases is
    rfl
  refine ⟨⟨?_, ?_⟩, fun first second firstOk secondOk => ?_⟩
  · rintro ⟨first, ok⟩
    obtain ⟨second, secondOk, _⟩ := elaborate_reordered is perm ok
    exact ⟨second, secondOk⟩
  · rintro ⟨second, ok⟩
    obtain ⟨first, firstOk, _⟩ := elaborate_reordered isMoved perm.symm ok
    rw [back] at firstOk
    exact ⟨first, firstOk⟩
  · obtain ⟨found, foundOk, reordered⟩ := elaborate_reordered is perm firstOk
    cases foundOk.symm.trans secondOk
    have distinct := (drivers_of_resolve (elaborate_eq_ok firstOk).2).1
    have secondDistinct := (drivers_of_resolve (elaborate_eq_ok secondOk).2).1
    refine ⟨reordered.names, reordered.drives,
      DriverTable.storage_congr distinct secondDistinct fun name => reordered.drives .sequential name,
      reordered.exclusiveLines, reordered.diagnostics, reordered.passages, fun origin => ?_,
      Emission.lookup_shadows_congr firstOk secondOk reordered.names reordered.drives⟩
    rcases origin with ⟨text, isParsed⟩ | apart
    · exact reordered.aggregateWidths (apart_of_parse isParsed is)
    · exact reordered.aggregateWidths apart

/-- An assignment and a process with a variable, each with an aggregate. -/
def sampleOrder : List Char :=
  ("entity e is port (d : in std_logic; y, z : out std_logic_vector(1 downto 0)); end; " ++
    "architecture r of e is begin z <= (others => '0'); " ++
    "process (d) variable v : std_logic; begin v := d; y <= (others => v); end process; end;").toList

theorem sampleOrder_is_unordered : ∃ parsed body first second,
    (parse sampleOrder).result = .ok parsed ∧ parsed.architecture = some body ∧
    (elaborate parsed true).result = .ok first ∧
    (elaborate (parsed.withStatements body.statements.reverse) true).result = .ok second ∧
    first.aggregateWidths.keys.length = 2 ∧
    (∀ site, first.aggregateWidths.find? site = second.aggregateWidths.find? site) ∧
    (Emission.shadows Dialect.legacy.profile second).lookup "y" = some "y_comb" := by
  have isElaborated : ∃ parsed, (parse sampleOrder).result = .ok parsed ∧ parsed.architecture.isSome ∧
      ∃ first, (elaborate parsed true).result = .ok first ∧ first.aggregateWidths.keys.length = 2 ∧
        (Emission.shadows Dialect.legacy.profile first).lookup "y" = some "y_comb" := by decide +kernel
  obtain ⟨parsed, isParsed, isSome, first, firstOk, widths, isShadow⟩ := isElaborated
  obtain ⟨body, is⟩ := Option.isSome_iff_exists.mp isSome
  obtain ⟨succeeds, same⟩ :=
    statements_are_unordered parsed body is body.statements.reverse (List.reverse_perm _).symm true
  obtain ⟨second, secondOk⟩ := succeeds.mp ⟨first, firstOk⟩
  obtain ⟨_, _, _, _, _, _, sameWidths, sameShadows⟩ := same first second firstOk secondOk
  exact ⟨parsed, body, first, second, isParsed, is, firstOk, secondOk, widths,
    sameWidths (.inl ⟨sampleOrder, isParsed⟩), sameShadows "y" ▸ isShadow⟩

end Vhdl

end RtlBridge
