import Pseudocode.Program
import Pseudocode.Target
import Pseudocode.Text.Blank

/-! # French prose

The algorithm in words, to be read and not to be run. -/
namespace Pseudocode.French

def vocabulary : Vocabulary := Target.algorithmic.vocabulary

def pluralOf (word : Text) : Text := if word.getLast? = some 's' then word else word ++ "s"

def bounds (dims : List Text) : Text := dims.flatMap fun dim => "[" ++ dim ++ "]"

def spellType : TypeTerm → Text
  | .named name => vocabulary.spell name
  | .record name => "Structure " ++ name
  | .array none dims => vocabulary.sequence ++ bounds dims
  | .array (some element) dims =>
    vocabulary.sequence ++ bounds dims ++ " de " ++ pluralOf (vocabulary.spell element)

def reference (p : Parameter) : Text := Text.when p.byRef " en donnée/résultat"

def spellParameter (p : Parameter) : Text := p.name ++ " : " ++ spellType p.type ++ reference p

def declaration (type : Text) : List Text → Option Text → Text
  | name :: _, some value => name ++ " : " ++ type ++ " ← " ++ value
  | names, _ => Text.commaList names ++ " : " ++ type

def printed (arg : Text) : Text := if arg = newlineToken then "retour à la ligne" else arg

def spell : Phrase → Text
  | .nothing => []
  | .comment text => "// " ++ text
  | .declare type names value => declaration type names value
  | .forRange var first limit none =>
    "Pour " ++ var ++ " allant de " ++ first ++ " à " ++ limit ++ " (exclu) faire"
  | .forRange var first limit (some step) =>
    "Pour " ++ var ++ " allant de " ++ first ++ " à " ++ limit ++ " (exclu) par pas de " ++
      step ++ " faire"
  | .forEach item source =>
    "Pour chaque élément de " ++ source ++ " stockés dans " ++ item.name ++ reference item ++
      " (type " ++ spellType item.type ++ ")"
  | .whileCond condition => "Tant que " ++ condition ++ " faire"
  | .ifCond condition => "Si " ++ condition ++ " alors"
  | .elseIf condition => "Sinon si " ++ condition ++ " alors"
  | .otherwise => "Sinon"
  | .switch value => "Selon " ++ value ++ " :"
  | .case value => "Cas " ++ value ++ " :"
  | .default => "Autre cas :"
  | .blockEnd .forRange | .blockEnd .forEach => "Fin Pour"
  | .blockEnd .whileCond => "Fin Tant que"
  | .blockEnd .ifElse => "Fin Si"
  | .blockEnd .switch => "Fin Selon"
  | .blockEnd .case | .blockEnd .default => "Fin Cas"
  | .blockEnd .function => "Fin Fonction"
  | .blockEnd .procedure => "Fin Procédure"
  | .print [] => "Afficher"
  | .print args => "Afficher " ++ Text.commaList (args.map printed)
  | .input var => "Saisir " ++ var
  | .function name (some result) params =>
    "Fonction " ++ name ++ "(" ++ Text.commaList (params.map spellParameter) ++ ") : " ++
      spellType result
  | .function name none params =>
    "Procédure " ++ name ++ "(" ++ Text.commaList (params.map spellParameter) ++ ")"
  | .returns value => Text.trimEnd ("Retourner " ++ value)
  | .array element name dims =>
    name ++ " : " ++ spellType (.array (some element) dims) ++ " initialisé à 0"
  | .record name [] => "Structure " ++ name
  | .record name fields =>
    "Structure " ++ name ++ " : " ++ Text.commaList (fields.map spellParameter)
  | .init record var [] => "Initialisation de " ++ var ++ " (Structure " ++ record ++ ")"
  | .init record var fields =>
    "Initialisation de " ++ var ++ " (Structure " ++ record ++ ") avec " ++
      Text.commaList (fields.map fun f => f.1 ++ " = " ++ f.2)
  | .quit code => "Code de retour : " ++ code
  | .note kind text => kind.label ++ " : " ++ text
  | .verbatim text => text

/-- The argument at a place, or nothing if there are fewer. -/
def arg (args : List Text) (i : Nat) : Text := args[i]?.getD []

/-- The arguments from one place up to another, as far as there are any. -/
def argList (args : List Text) (first limit : Nat) : Text :=
  Text.commaList ((args.drop first).take (limit - first))

def drawing (op : Drawing) (args : List Text) : Text :=
  match op with
  | .openWindow =>
    "Initialisation de la fenêtre avec pour nom " ++ arg args 0 ++ ", largeur " ++ arg args 1 ++
      ", et hauteur " ++ arg args 2
  | .clearWindow => "Effaçage de la fenêtre"
  | .showWindow => "Affichage de la fenêtre"
  | .quitWindow => "Fermeture de la fenêtre"
  | .color => "Changement de la couleur vers (" ++ Text.commaList args ++ ")"
  | .background =>
    "Changement de la couleur d'arrière plan vers (" ++ Text.commaList args ++ ")"
  | .waitSpace => "Attente d'un appui sur Espace de l'utilisateur"
  | .circle =>
    "Trace un cercle de centre (" ++ argList args 0 2 ++ ") et de rayon " ++ arg args 2
  | .disc =>
    "Trace un cercle REMPLI de centre (" ++ argList args 0 2 ++ ") et de rayon " ++ arg args 2
  | .line => "Trace une ligne de (" ++ argList args 0 2 ++ ") à (" ++ argList args 2 4 ++ ")"
  | .rectangle =>
    "Trace un rectangle de (" ++ argList args 0 2 ++ ") à (" ++ argList args 2 4 ++ ")"
  | .filledRectangle =>
    "Trace un rectangle REMPLI de (" ++ argList args 0 2 ++ ") à (" ++ argList args 2 4 ++ ")"
  | .pixel =>
    "Pose un pixel sur la fenêtre aux coordonnées (" ++ argList args 0 2 ++
      ") avec une couleur (" ++ argList args 2 args.length ++ ")"
  | .delay => "Attendre " ++ arg args 0 ++ " ms"
  | .image =>
    match Drawing.imageTarget? args with
    | some (path, var) =>
      "Charge l'image au chemin " ++ Text.unwords path ++ " dans la variable " ++ var
    | none => "Charge l'image au chemin " ++ Text.unwords args

def compose (p : Program) (unit : Text) : Text :=
  p.definitions ++ "Algorithme principal\nDébut\n" ++ p.body unit ++ "Fin\n"

end Pseudocode.French
