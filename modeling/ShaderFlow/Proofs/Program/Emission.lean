import Mathlib
import ShaderFlow.Proofs.Program.Generation

set_option autoImplicit false

namespace ShaderFlow

open Definition

namespace Fragment

/-- Two definitions share a third one and a texel; one is given twice and one is not reached. -/
def diamond : Fragment :=
  let texel := .shared (.text "texel") "vec4" (.call "texture2D" [.ref "at"]) "sample"
  ⟨[.define "sum" "vec4" (.call "mix" [.ref "half", texel]),
    .define "spare" "float" (.ref "nowhere"),
    .commit (.call "mix" [.ref "sum", .ref "half"]),
    .define "half" "vec4" texel,
    .define "at" "vec2" (.call "centre" []),
    .define "half" "vec4" texel], .absent⟩

theorem diamond_wellFormed : WellFormed diamond.statements :=
  ⟨by decide, by unfold Term.IsFinite; decide⟩

/-- A source that is generated consists of the preamble and the lines of exactly the definitions
that the one commit statement reaches, each once and after all it refers to, and of the commit
statement after them. -/
theorem generate_emits_reached_in_order (target : Target) (f : Fragment) (text : String)
    (success : (f.generate target).outcome = .ok text) :
    ∃ lowered hits commit ds lines,
      lowerProgram f.statements = .ok (lowered, hits) ∧
      lowered.filter Program.isCommit = [commit] ∧
      Resolves (among lowered) commit.names ds ∧
      (ds.map toTerm ++ [commit]).mapM (Term.emitStatement target 1) = .ok lines ∧
      text = "\n".intercalate
        (target.preamble ++ ["", "void main() \x7b"] ++ lines ++ ["\x7d"]) := by
  rw [outcome_generate] at success
  obtain ⟨p, made, success⟩ := Outcome.bind_eq_ok_iff.mp success
  obtain ⟨lowered, ran, built⟩ := Program.built_of_ofStatements made
  obtain ⟨lines, written, same⟩ := Outcome.bind_eq_ok_iff.mp success
  rw [Program.body_eq_mapM] at written
  cases same
  exact ⟨lowered, p.hits, p.commit, p.definitions, lines, ran, built.only, built.resolves, written,
    rfl⟩

theorem generate_emits_reached_in_order_diamond :
    ∃ text, (diamond.generate .opengl33).outcome = .ok text ∧
      ∃ lowered hits commit ds lines,
        lowerProgram diamond.statements = .ok (lowered, hits) ∧
        lowered.filter Program.isCommit = [commit] ∧
        Resolves (among lowered) commit.names ds ∧
        (ds.map toTerm ++ [commit]).mapM (Term.emitStatement .opengl33 1) = .ok lines ∧
        text = "\n".intercalate
          (Target.opengl33.preamble ++ ["", "void main() \x7b"] ++ lines ++ ["\x7d"]) := by
  have made : Program.ofStatements diamond.statements =
      .ok ⟨[⟨"at", "vec2", .call "centre" []⟩,
          ⟨"sample_0", "vec4", .call "texture2D" [.ref "at"]⟩,
          ⟨"half", "vec4", .ref "sample_0"⟩,
          ⟨"sum", "vec4", .call "mix" [.ref "half", .ref "sample_0"]⟩],
        .commit (.call "mix" [.ref "sum", .ref "half"]), 1, 2⟩ := by cbv
  obtain ⟨text, success⟩ := exists_generate diamond_wellFormed .opengl33 made
  exact ⟨text, success, generate_emits_reached_in_order .opengl33 diamond text success⟩

/-- Generation over well-formed statements succeeds exactly when the lowered statements compile, and
otherwise fails for the reason why they do not. -/
theorem generate_fails_iff_not_compiles (target : Target) (f : Fragment)
    (wellFormed : WellFormed f.statements) :
    ∃ lowered hits, lowerProgram f.statements = .ok (lowered, hits) ∧
      Verdict lowered (f.generate target).outcome ∧
      ((∃ text, (f.generate target).outcome = .ok text) ↔ Compiles lowered) := by
  obtain ⟨lowered, hits, ran⟩ := Lowering.exists_lowerProgram wellFormed.shape
  have verdict := verdict_generate wellFormed target ran
  exact ⟨lowered, hits, ran, verdict, verdict.isOk_iff⟩

theorem generate_fails_iff_not_compiles_diamond :
    WellFormed diamond.statements ∧
    ∃ lowered hits, lowerProgram diamond.statements = .ok (lowered, hits) ∧
      Verdict lowered (diamond.generate .webgl).outcome ∧
      ((∃ text, (diamond.generate .webgl).outcome = .ok text) ↔ Compiles lowered) :=
  ⟨diamond_wellFormed, generate_fails_iff_not_compiles .webgl diamond diamond_wellFormed⟩

end Fragment

end ShaderFlow
