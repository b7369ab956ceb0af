import AttributeGrammar.Library
import AttributeGrammar.Report.Display

/-! The menu of the example library.
The prompt comes again until a line is empty, which takes the first example, or is the number of one.
-/
namespace AttributeGrammar.CommandLine

def menuShown (library : Library) : List Shown :=
  [.panel none
      (.styled
        "[bold cyan]属性文法强无环性检查[/bold cyan]\n\n逐轮计算传递关系、根投影和重新装饰的关系"),
    .line (.styled "\n[bold yellow]请选择属性文法：[/bold yellow]\n"),
    .table none ["选项", "文法"] (library.examples.zipIdx.map fun (entry, place) =>
      [.styled ("[" ++ toString (place + 1) ++ "]"), ⟨entry.title, true⟩])]

def menuChoices (library : Library) : List String :=
  (List.range library.size).map fun place => toString (place + 1)

def menuPrompt (library : Library) : Shown :=
  .prompt ("\n请输入选项编号 [" ++ String.intercalate "/" (menuChoices library) ++ "] (1): ")

def menuRefusal : Shown :=
  .line (.styled "[prompt.invalid.choice]Please select one of the available options")

/-- The example that a typed line chooses. -/
def chosen? (library : Library) (line : String) : Option Example :=
  let wanted := if line == "" then "1" else Text.stripped line.toList
  ((menuChoices library).zip library.examples).lookup wanted

def chosenShown (entry : Example) : Shown :=
  .line ⟨Text.points "\n[cyan]✓ 已选择: " ++ entry.title ++ Text.points "[/cyan]", true⟩

/-- Prompts for one line after another. -/
def choose (library : Library) : List String → List Shown × Except Fault Example
  | [] => ([menuPrompt library], .error .inputEnded)
  | line :: rest =>
    match chosen? library line with
    | some entry => ([menuPrompt library, chosenShown entry], .ok entry)
    | none =>
      let later := choose library rest
      (menuPrompt library :: menuRefusal :: later.1, later.2)

end AttributeGrammar.CommandLine
