import Stepwise.Proofs.Syntax.Rebuilding

/-!
# Layout does not matter

Reading a script and reading it with other layout between its tokens gives the same script, up to spans
(`Program.parse_relaid`): the matches find alike trees, and alike trees are turned into syntax of the same shape.
-/

namespace Stepwise

/-- A script with other layout is read as the same script, up to spans. -/
theorem Program.parse_relaid {source source' : String} {p : Program} (h : Program.parse source = .ok p)
    (hrelaid : Relaid source.toList source'.toList) :
    ∃ p', Program.parse source' = .ok p' ∧ p'.shape = p.shape := by
  obtain ⟨t, ht, hp⟩ := Program.ofChars_eq_ok.1 h
  obtain ⟨u, hu, hform⟩ := Tree.ofText_alike hrelaid ht
  have hcarries : t.Alike (Tree.Carries (fun _ _ => True) source.toList source'.toList) u :=
    hform.carries fun _ _ => trivial
  obtain ⟨p', ss, ss', s, s', hp', hbody, hbody', halike⟩ := Program.ofTree_alike hcarries hp
  refine ⟨p', Program.ofChars_eq_ok.2 ⟨u, hu, hp'⟩, ?_⟩
  simp [Program.shape, hbody, hbody', halike.shape]

/-- Comments of both kinds, one of them inside a string literal and one that the end of the text closes. -/
def commentedSource : String := "let a = 1;// one\nf(a, \"// b\")/* two */+ 2 // end"

def relaidSource : String := "let\n\ta = 1; f(a, \"// b\") // more\n+\t2 "

theorem relaid_commentedSource : Relaid commentedSource.toList relaidSource.toList := by
  have hcommented : commentedSource.toList = "let".toList ++ ([' '] ++ ("a".toList ++ ([' '] ++ ("=".toList ++ ([' '] ++
      ("1;".toList ++ ('/' :: '/' :: (" one".toList ++ ['\n']) ++ ("f(a,".toList ++ ([' '] ++ ("\"// b\"".toList ++
      (")".toList ++ ('/' :: '*' :: (" two ".toList ++ ['*', '/']) ++ ("+".toList ++ ([' '] ++ ("2".toList ++
      ([' '] ++ '/' :: '/' :: " end".toList)))))))))))))))) := by decide
  have hrelaid : relaidSource.toList = "let".toList ++ (['\n', '\t'] ++ ("a".toList ++ ([' '] ++ ("=".toList ++ ([' '] ++
      ("1;".toList ++ ([' '] ++ ("f(a,".toList ++ ([' '] ++ ("\"// b\"".toList ++
      (")".toList ++ (' ' :: '/' :: '/' :: (" more".toList ++ ['\n']) ++ ("+".toList ++ (['\t'] ++ ("2".toList ++
      [' ']))))))))))))))) := by decide
  have hblank : Layout.Run [' '] := .blank rfl .nil
  have hone : Layout.Run ('/' :: '/' :: (" one".toList ++ ['\n'])) := .line (by decide) .nil
  have htwo : Layout.Run ('/' :: '*' :: (" two ".toList ++ ['*', '/'])) := .block (by decide) .nil
  have hlines : Layout.Gap ['\n', '\t'] := ⟨.blank rfl (.blank rfl .nil), rfl⟩
  have hmore : Layout.Gap (' ' :: '/' :: '/' :: (" more".toList ++ ['\n'])) :=
    ⟨.blank rfl (.line (by decide) .nil), rfl⟩
  have htab : Layout.Gap ['\t'] := ⟨.blank rfl .nil, rfl⟩
  have hspace : Layout.Gap [' '] := ⟨hblank, rfl⟩
  rw [hcommented, hrelaid]
  refine .plain rfl (.gap hblank nofun hlines (.plain rfl (.kept hblank nofun (.plain rfl (.kept hblank nofun ?_)))))
  refine .plain rfl (.gap hone nofun hspace (.plain rfl (.kept hblank nofun (.string rfl (.plain rfl ?_)))))
  exact .gap htwo nofun hmore (.plain rfl (.gap hblank nofun htab (.plain rfl (.last hblank (by decide) hspace))))

theorem Program.parse_relaid_commentedSource : ∃ p, Program.parse commentedSource = .ok p ∧
    Relaid commentedSource.toList relaidSource.toList ∧
    ∃ p', Program.parse relaidSource = .ok p' ∧ p'.shape = p.shape := by
  cases h : Program.parse commentedSource with
  | error e =>
    have hok : (Program.parse commentedSource).toOption.isSome = true := by decide +kernel
    rw [h] at hok
    cases hok
  | ok p => exact ⟨p, rfl, relaid_commentedSource, Program.parse_relaid h relaid_commentedSource⟩

end Stepwise
