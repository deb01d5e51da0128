import GrammarCheck.Proofs.Source.ByName
import GrammarCheck.Proofs.Step.Setting

/-! The order of the constructs of a text. What a text says of its names depends neither on it nor
on the lines, except that the first `%start` directive is the one that counts. -/

namespace GrammarCheck

def Respelling.unplaced : Respelling := ⟨id, fun _ => 0⟩

namespace Construct

def unplaced (c : Construct) : Construct := Respelling.unplaced.construct c

theorem tokens_unplaced (c : Construct) :
    c.unplaced.tokens = c.tokens.map Respelling.unplaced.ident := by
  cases c <;> rfl

theorem headers_unplaced (c : Construct) :
    c.unplaced.headers = c.headers.map Respelling.unplaced.ident := by
  cases c <;> rfl

theorem starts_unplaced (c : Construct) :
    c.unplaced.starts = c.starts.map Respelling.unplaced.ident := by
  cases c <;> rfl

theorem references_unplaced (c : Construct) :
    c.unplaced.references = c.references.map Respelling.unplaced.ident := by
  cases c with
  | rule header alternatives =>
      change (alternatives.toList.map (OneOrMore.map _)).flatMap OneOrMore.toList = _
      rw [List.flatMap_map, references, List.map_flatMap]
      rfl
  | _ => rfl

/-- The alternatives of a name are the same wherever the rule stands. -/
theorem alternatives_unplaced (name : String) (c : Construct) :
    c.unplaced.alternatives name =
      (c.alternatives name).map (OneOrMore.map Respelling.unplaced.ident) := by
  cases c with
  | rule header alternatives =>
      change (if header.name = name then _ else []) = _
      rw [Construct.alternatives]
      split <;> rfl
  | _ => rfl

end Construct

namespace Source

/-- Two texts of the same constructs, which may stand in another order and on other lines. -/
def Rearranges (source other : Source) : Prop :=
  (source.map Construct.unplaced).Perm (other.map Construct.unplaced)

/-- At most one name is declared by `%start`, however often. -/
def SingleStart (source : Source) : Prop :=
  ∀ name ∈ Ident.names source.starts, ∀ other ∈ Ident.names source.starts, other = name

instance (source : Source) : Decidable source.SingleStart :=
  inferInstanceAs (Decidable (∀ name ∈ _, ∀ other ∈ _, other = name))

variable {source other : Source} {name : String}

namespace Rearranges

theorem symm (h : source.Rearranges other) : other.Rearranges source := List.Perm.symm h

theorem trans {third : Source} (h : source.Rearranges other) (hThird : other.Rearranges third) :
    source.Rearranges third := List.Perm.trans h hThird

/-- Another order of the same constructs is a rearrangement. -/
theorem of_perm (h : source.Perm other) : source.Rearranges other := h.map Construct.unplaced

/-- What is collected from the constructs is the same, up to the order, as far as the lines do not
matter. -/
theorem perm_map {α β : Type} {f : Construct → List α} {unplaced : α → α} {key : α → β}
    (h : source.Rearranges other) (hCollect : ∀ c : Construct, f c.unplaced = (f c).map unplaced)
    (hKey : ∀ a, key (unplaced a) = key a) :
    ((source.flatMap f).map key).Perm ((other.flatMap f).map key) := by
  have hUnplaced (source : Source) : (source.flatMap f).map key =
      ((source.map Construct.unplaced).flatMap f).map key := by
    rw [List.flatMap_map, List.map_flatMap, List.map_flatMap]
    refine List.flatMap_congr fun c _ => ?_
    rw [hCollect, List.map_map]
    exact List.map_congr_left fun a _ => (hKey a).symm
  rw [hUnplaced source, hUnplaced other]
  exact (h.flatMap_right f).map key

section

variable (h : source.Rearranges other)
include h

theorem mem_tokens : name ∈ Ident.names source.tokens ↔ name ∈ Ident.names other.tokens :=
  (h.perm_map Construct.tokens_unplaced fun _ => rfl).mem_iff

theorem mem_headers : name ∈ Ident.names source.headers ↔ name ∈ Ident.names other.headers :=
  (h.perm_map Construct.headers_unplaced fun _ => rfl).mem_iff

theorem mem_starts : name ∈ Ident.names source.starts ↔ name ∈ Ident.names other.starts :=
  (h.perm_map Construct.starts_unplaced fun _ => rfl).mem_iff

theorem mem_references :
    name ∈ Ident.names source.references ↔ name ∈ Ident.names other.references :=
  (h.perm_map Construct.references_unplaced fun _ => rfl).mem_iff

theorem mem_idents : name ∈ Ident.names source.idents ↔ name ∈ Ident.names other.idents := by
  simp only [mem_names_idents_iff, h.mem_tokens, h.mem_headers, h.mem_starts, h.mem_references]

/-- Every name has the same alternatives, which may come in another order. -/
theorem alternatives (name : String) :
    ((source.alternatives name).map fun a => Ident.names a.toList).Perm
      ((other.alternatives name).map fun a => Ident.names a.toList) := by
  refine h.perm_map (Construct.alternatives_unplaced name) fun a => ?_
  change Ident.names (a.toList.map _) = _
  rw [Ident.names, List.map_map]
  rfl

theorem exists_alternative {a : Alternative} (hMem : a ∈ source.alternatives name) :
    ∃ b ∈ other.alternatives name, Ident.names b.toList = Ident.names a.toList :=
  List.mem_map.1 ((h.alternatives name).mem_iff.1 (List.mem_map_of_mem hMem))

/-- Whether kinds clash does not depend on the order. -/
theorem clashes_iff : source.Clashes ↔ other.Clashes := by
  simp only [Clashes, h.mem_tokens, h.mem_headers, h.mem_starts]

theorem kind_eq (name : String) : source.kind name = other.kind name := by
  simp only [kind, h.mem_tokens, h.mem_headers, h.mem_starts]

theorem singleStart_iff : source.SingleStart ↔ other.SingleStart := by
  simp only [SingleStart, h.mem_starts]

/-- What some names derive in one text they derive in the other. The induction is on the
derivation. -/
theorem derives {names sentence : List String} (hDerives : source.Derives names sentence) :
    other.Derives names sentence := by
  induction hDerives with
  | nil => exact .nil
  | terminal hToken _ ih => exact .terminal (h.mem_tokens.1 hToken) ih
  | rule hAlternative _ _ ihFirst ihRest =>
      obtain ⟨b, hMem, hNames⟩ := h.exists_alternative hAlternative
      exact .rule hMem (hNames ▸ ihFirst) ihRest

theorem derivesWithin {n : Nat} (hWithin : source.DerivesWithin n name) :
    other.DerivesWithin n name := by
  induction hWithin with
  | terminal hToken => exact .terminal (h.mem_tokens.1 hToken)
  | rule hAlternative _ ih =>
      obtain ⟨b, hMem, hNames⟩ := h.exists_alternative hAlternative
      exact .rule hMem (hNames ▸ ih)

end

theorem derivesWithin_iff (h : source.Rearranges other) {n : Nat} :
    source.DerivesWithin n name ↔ other.DerivesWithin n name :=
  ⟨h.derivesWithin, h.symm.derivesWithin⟩

theorem terminates_iff (h : source.Rearranges other) :
    source.Terminates name ↔ other.Terminates name :=
  exists_congr fun _ => ⟨h.derives, h.symm.derives⟩

theorem unproductive_iff (h : source.Rearranges other) :
    source.Unproductive name ↔ other.Unproductive name := by
  simp only [Unproductive, h.mem_headers, h.mem_starts, h.terminates_iff]

/-- A text that is sound stays so when it is rearranged. -/
theorem sound (h : source.Rearranges other) (hSound : source.Sound) : other.Sound where
  start := by simpa only [h.mem_headers, h.mem_starts] using hSound.start
  declared := by
    simpa only [h.mem_references, h.mem_tokens, h.mem_headers] using hSound.declared
  terminating := by
    simpa only [h.mem_headers, h.mem_starts, h.terminates_iff] using hSound.terminating

theorem sound_iff (h : source.Rearranges other) : source.Sound ↔ other.Sound :=
  ⟨h.sound, h.symm.sound⟩

end Rearranges

end Source

end GrammarCheck
