import ObjectIds.Proofs.HeaderSpelling
import ObjectIds.Proofs.PlaceOrder

/-!
# Where declarations stand

A scan takes declarations from the front of the visible tokens.  Each declaration has a
site: the tokens that spell it.  The sites follow one another without overlap, whatever
is discarded or skipped between them, so no token says something about two declarations.
-/

namespace ObjectIds

namespace Declaration

/-- A declaration, its kind, and the index of the token that it starts at. -/
structure Site where
  start : Nat
  kind : ObjectKind
  declaration : Declaration

namespace Site

/-- The index after the last token that a declaration is read from. -/
def stop (site : Site) : Nat := site.start + Header.width site.kind site.declaration

/-- The kind is in the table of kinds, and the tokens spell the declaration there. -/
structure Stands (tokens : List Token) (site : Site) : Prop where
  inTable : site.kind ∈ ObjectKind.all
  lowercase : Text.lowercase site.declaration.kind = site.declaration.kind
  spells : Header.Spells site.kind tokens site.start site.declaration

theorem start_lt_stop (site : Site) : site.start < site.stop := by
  unfold stop Header.width
  omega

end Site

/-- The next declaration is the header after some keyword. -/
theorem exists_keyword_of_next {tokens : List Token} {declaration : Declaration}
    (found : (next tokens).1 = some declaration) :
    ∃ kind keyword after, keyword :: after <:+ tokens ∧
      ObjectKind.ofToken? keyword = some kind ∧ declaration.isComplete kind = true ∧
        Header.read kind keyword after = (declaration, (next tokens).2) := by
  fun_induction next tokens with
  | case1 => simp at found
  | case2 token rest kind isKind header complete =>
      obtain rfl := Option.some.inj found
      exact ⟨kind, token, rest, List.suffix_refl _, isKind, complete, rfl⟩
  | case3 token rest kind isKind header incomplete shorter ih =>
      obtain ⟨later, keyword, after, isSuffix, facts⟩ := ih found
      have afterHeader := Header.read_suffix kind token rest
      exact ⟨later, keyword, after,
        (isSuffix.trans afterHeader).trans (List.suffix_cons token rest), facts⟩
  | case4 token rest noKind shorter ih =>
      obtain ⟨later, keyword, after, isSuffix, facts⟩ := ih found
      have afterToken := afterLine_suffix token.position.line rest
      exact ⟨later, keyword, after,
        (isSuffix.trans afterToken).trans (List.suffix_cons token rest), facts⟩

/-- The next declaration among the tokens from `first` on stands at a site, and the tokens
after it are tokens after the site. -/
theorem exists_site_of_next {tokens : List Token} {first : Nat} {declaration : Declaration}
    (found : (next (tokens.drop first)).1 = some declaration) :
    ∃ site : Site, site.Stands tokens ∧ site.declaration = declaration ∧
      first ≤ site.start ∧
      ∃ later, site.stop ≤ later ∧ (next (tokens.drop first)).2 = tokens.drop later := by
  obtain ⟨kind, keyword, after, isSuffix, isKeyword, complete, isRead⟩ :=
    exists_keyword_of_next found
  have startsLater := isSuffix.length_le
  have isHere := List.suffix_iff_eq_drop.1 (isSuffix.trans (List.drop_suffix first tokens))
  rw [List.length_drop] at startsLater
  simp only [List.length_cons] at startsLater isHere
  obtain rfl : (Header.read kind keyword after).1 = declaration := congrArg Prod.fst isRead
  obtain ⟨spells, taken⟩ := Header.spells_read isHere.symm isKeyword complete
  have inTable := (Header.keyword_of_ofToken? isKeyword).1
  have isRest : (next (tokens.drop first)).2 <:+ tokens := by
    rw [← congrArg Prod.snd isRead]
    exact ((Header.read_suffix kind keyword after).trans
      ((List.suffix_cons keyword after).trans isSuffix)).trans (List.drop_suffix first tokens)
  refine ⟨⟨_, kind, _⟩, ⟨inTable, ?_, spells⟩, rfl, by simp only; omega, _, ?_,
    List.suffix_iff_eq_drop.1 isRest⟩
  · simp only [spells.kind_eq]
    exact ObjectKind.lowercase_keyword kind inTable
  · rw [← congrArg Prod.snd isRead]
    exact Nat.le_sub_of_add_le taken

/-- The declarations among the tokens from `first` on stand at sites of their own. -/
theorem exists_sites (tokens : List Token) (first : Nat) :
    ∃ sites : List Site, sites.map Site.declaration = listOfTokens (tokens.drop first) ∧
      (∀ site ∈ sites, site.Stands tokens ∧ first ≤ site.start) ∧
        sites.Pairwise fun earlier later => earlier.stop ≤ later.start := by
  -- The induction is on the tokens still to come, while indices count all tokens.
  generalize isLater : tokens.drop first = later
  fun_induction listOfTokens later generalizing first with
  | case1 later rest isNext => exact ⟨[], rfl, by simp, .nil⟩
  | case2 later declaration rest isNext shorter ih =>
      subst isLater
      obtain ⟨site, stands, rfl, notBefore, after, notAfter, isRest⟩ :=
        exists_site_of_next (congrArg Prod.fst isNext)
      rw [isNext] at isRest
      obtain ⟨sites, areFound, allStand, ordered⟩ := ih after isRest.symm
      refine ⟨site :: sites, by simp [areFound], ?_, ?_⟩
      · have startStop := site.start_lt_stop
        rw [List.forall_mem_cons]
        refine ⟨⟨stands, notBefore⟩, fun other member => ?_⟩
        have starts := (allStand other member).2
        exact ⟨(allStand other member).1, by omega⟩
      · rw [List.pairwise_cons]
        refine ⟨fun other member => ?_, ordered⟩
        exact Nat.le_trans notAfter (allStand other member).2

end Declaration

/-- Every declaration that a scan finds is spelled by visible tokens, which it shares with
no other declaration, and the declarations come in the order of their positions. -/
theorem scan_declarations_spelled (source : String) (symbols : SymbolTable)
    (short : source.utf8ByteSize < UInt32.size) :
    let tokens := ((TokenStream.ofText source symbols).drain []).1
    let found := (Scan.ofText source symbols).declarations
    (∃ sites : List Declaration.Site, sites.map Declaration.Site.declaration = found ∧
      (∀ site ∈ sites, site.Stands tokens) ∧
        sites.Pairwise fun earlier later => earlier.stop ≤ later.start) ∧
      found.Pairwise fun earlier later => earlier.position.Before later.position := by
  intro tokens found
  have tokensEq : tokens = (Preprocessed.ofText source symbols).tokens :=
    (TokenStream.drain_ofText source symbols).1
  have inOrder : tokens.Pairwise fun first second => first.position.Before second.position := by
    rw [tokensEq]
    exact Preprocessed.pairwise_position_tokens source symbols short
  obtain ⟨sites, areFound, allStand, ordered⟩ := Declaration.exists_sites tokens 0
  have foundEq : sites.map Declaration.Site.declaration = found := by
    rw [areFound, List.drop_zero, tokensEq]
    rfl
  refine ⟨⟨sites, foundEq, fun site member => (allStand site member).1, ordered⟩, ?_⟩
  rw [← foundEq, List.pairwise_map]
  refine ordered.imp_of_mem ?_
  intro earlier later earlierMember laterMember apart
  have earlierSpells := (allStand earlier earlierMember).1.spells
  have laterSpells := (allStand later laterMember).1.spells
  obtain ⟨token, atStart, -, -, positionEq⟩ := earlierSpells.keyword
  obtain ⟨other, atOther, -, -, otherEq⟩ := laterSpells.keyword
  obtain ⟨inside, isToken⟩ := List.getElem?_eq_some_iff.1 atStart
  obtain ⟨otherInside, isOther⟩ := List.getElem?_eq_some_iff.1 atOther
  rw [positionEq, otherEq, ← isToken, ← isOther]
  exact List.pairwise_iff_getElem.1 inOrder _ _ inside otherInside
    (Nat.lt_of_lt_of_le earlier.start_lt_stop apart)

/-- The second header breaks off before its name, so the declaration after it stands at a
site of its own. -/
theorem scan_declarations_spelled_after_broken_header :
    let source := "enum 7 \"A \"\"B\"\"\" implements I, J \x7b \x7d\ntable 8 ;\npage 9.5 C"
    let tokens := ((TokenStream.ofText source .empty).drain []).1
    let found := (Scan.ofText source .empty).declarations
    source.utf8ByteSize < UInt32.size ∧
      found.map Declaration.kind = ["enum", "page"] ∧
      found.map Declaration.id = [some 7, some 9] ∧
      found.map Declaration.name = [some "A \"B\"", some "C"] ∧
      found.map Declaration.interfaces = [["I", "J"], []] ∧
      (∃ sites : List Declaration.Site, sites.map Declaration.Site.declaration = found ∧
        (∀ site ∈ sites, site.Stands tokens) ∧
          sites.Pairwise fun earlier later => earlier.stop ≤ later.start) ∧
      found.Pairwise fun earlier later => earlier.position.Before later.position := by
  intro source tokens found
  have short : source.utf8ByteSize < UInt32.size := by decide +kernel
  refine ⟨short, ?_, ?_, ?_, ?_, scan_declarations_spelled source .empty short⟩
  · decide +kernel
  · decide +kernel
  · decide +kernel
  · decide +kernel

end ObjectIds
