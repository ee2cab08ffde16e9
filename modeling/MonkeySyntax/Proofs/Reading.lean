import MonkeySyntax.Parser.Program
import MonkeySyntax.Proofs.Advance

/-!
# Reading a program ends

Reading a program never runs out of the fuel it gives itself, and is never rejected: the loop over
statements comes to the end of the input, and what it has collected by then is the program
(`Reading.exists_run`). Statements about whole programs are reduced by this to statements about that
loop.
-/

namespace MonkeySyntax

open Parse

open MonkeySyntax.Parser (Between)

variable {σ : Type} [TokenStream σ]

theorem Parser.behind_ofStream (s : σ) : (Parser.ofStream s).Behind := by
  intro i t hc
  cases hc

variable [LawfulTokenStream σ]

/-- **Reading a program** is the loop over its statements, and this comes to the end of the input.
-/
theorem Reading.exists_run {p : Parser σ} (hp : p.Genuine) (hb : p.Behind) :
    ∃ body q, (statements (expression p.fuel) p.fuel endsProgram).run p = .done body q ∧
      q.current.kind = .eof ∧ Reading.ofParser p = ⟨⟨body⟩, q.diagnostics⟩ := by
  have hends : ((statements (expression p.fuel) p.fuel endsProgram).run p).Meets False
      (fun _ q => Between endsProgram p q ∧ endsProgram q.current.kind = true) fun _ => False :=
    statements_meets (expression_meets False p.fuel) (Nat.le_refl _) rfl hp hb
      (.inr p.length_upcoming_le_fuel)
  obtain ⟨body, q, hrun, -, hend⟩ := hends.exists_done
  refine ⟨body, q, hrun, by simpa [endsProgram] using hend, ?_⟩
  rw [Reading.ofParser, Parse.program, run_bind_of_done hrun]
  rfl

end MonkeySyntax
