import Glance.Token

/-!
# Themes

A theme gives a colour to every kind of token, to the page, to the gutter and to search matches.
Colours are written as style sheets write them.
-/

namespace Glance

/-- The colours of one theme. -/
structure Palette where
  background : String
  foreground : String
  keyword : String
  string : String
  number : String
  boolean : String
  comment : String
  brackets : Vector String bracketColors
  /-- Behind every search match. -/
  searchMatch : String
  /-- Behind the emphasized match. -/
  searchCurrent : String

inductive Theme where
  | classic
  | oneDarkPro
  | dracula
  | materialTheme
  | monokaiPro
  | nightOwl
  | ayu
  | cobalt2
  | palenight
  | shadesOfPurple
  | noctis
  deriving DecidableEq, Repr

namespace Theme

/-- Every theme, in display order. -/
def all : List Theme :=
  [.classic, .oneDarkPro, .dracula, .materialTheme, .monokaiPro, .nightOwl, .ayu, .cobalt2,
   .palenight, .shadesOfPurple, .noctis]

/-- The name a theme is stored and asked for by. -/
def shortName : Theme → String
  | .classic => "classic"
  | .oneDarkPro => "one-dark-pro"
  | .dracula => "dracula"
  | .materialTheme => "material-theme"
  | .monokaiPro => "monokai-pro"
  | .nightOwl => "night-owl"
  | .ayu => "ayu"
  | .cobalt2 => "cobalt2"
  | .palenight => "palenight"
  | .shadesOfPurple => "shades-of-purple"
  | .noctis => "noctis"

def displayName : Theme → String
  | .classic => "Classic"
  | .oneDarkPro => "One Dark Pro"
  | .dracula => "Dracula"
  | .materialTheme => "Material Theme"
  | .monokaiPro => "Monokai Pro"
  | .nightOwl => "Night Owl"
  | .ayu => "Ayu"
  | .cobalt2 => "Cobalt2"
  | .palenight => "Palenight"
  | .shadesOfPurple => "Shades of Purple"
  | .noctis => "Noctis"

/-- What is left of a name for comparison: its ASCII letters and digits, in small letters. -/
def squash (name : String) : List Char :=
  (name.toList.filter Char.isAlphanum).map Char.toLower

/-- The theme whose short name agrees with `name` in its ASCII letters and digits. -/
def ofName (name : String) : Except NameError Theme :=
  match all.find? (fun theme => squash theme.shortName == squash name) with
  | some theme => .ok theme
  | none => .error (.unknownTheme name)

/-! ## Palettes -/

def palette : Theme → Palette
  | .classic =>
    { background := "#282c34", foreground := "#abb2bf", keyword := "#61afef", string := "#98c379"
      number := "#d19a66", boolean := "#c678dd", comment := "gray"
      brackets := #v["#98c379", "#e06c75", "#61afef", "#e5c07b", "#56b6c2"]
      searchMatch := "rgba(255, 255, 0, 0.25)", searchCurrent := "rgba(224, 108, 117, 0.38)" }
  | .oneDarkPro =>
    { background := "#282c34", foreground := "#abb2bf", keyword := "#c678dd", string := "#98c379"
      number := "#d19a66", boolean := "#d19a66", comment := "#5c6370"
      brackets := #v["#98c379", "#e06c75", "#61afef", "#e5c07b", "#56b6c2"]
      searchMatch := "rgba(255, 255, 0, 0.25)", searchCurrent := "rgba(224, 108, 117, 0.38)" }
  | .dracula =>
    { background := "#282a36", foreground := "#f8f8f2", keyword := "#ff79c6", string := "#f1fa8c"
      number := "#bd93f9", boolean := "#bd93f9", comment := "#6272a4"
      brackets := #v["#50fa7b", "#ff5555", "#8be9fd", "#ffb86c", "#bd93f9"]
      searchMatch := "rgba(255, 184, 108, 0.25)", searchCurrent := "rgba(255, 85, 85, 0.38)" }
  | .materialTheme =>
    { background := "#212121", foreground := "#eeff41", keyword := "#c792ea", string := "#c3e88d"
      number := "#ffd54f", boolean := "#ffd54f", comment := "#75715e"
      brackets := #v["#c3e88d", "#ff5370", "#82aaff", "#ffd54f", "#c792ea"]
      searchMatch := "rgba(255, 213, 79, 0.25)", searchCurrent := "rgba(255, 83, 112, 0.38)" }
  | .monokaiPro =>
    { background := "#272822", foreground := "#f8f8f2", keyword := "#f92672", string := "#e6db74"
      number := "#ae81ff", boolean := "#ae81ff", comment := "#75715e"
      brackets := #v["#a6e22e", "#f92672", "#66d9ef", "#e6db74", "#ae81ff"]
      searchMatch := "rgba(230, 219, 116, 0.25)", searchCurrent := "rgba(249, 38, 114, 0.38)" }
  | .nightOwl =>
    { background := "#011627", foreground := "#839496", keyword := "#c3e88d", string := "#addb67"
      number := "#ffcb6b", boolean := "#ffcb6b", comment := "#637777"
      brackets := #v["#addb67", "#ff6363", "#82aaff", "#ffcb6b", "#c792ea"]
      searchMatch := "rgba(255, 203, 107, 0.25)", searchCurrent := "rgba(255, 99, 99, 0.38)" }
  | .ayu =>
    { background := "#0f1419", foreground := "#cbccc6", keyword := "#ffcc66", string := "#c9d0ff"
      number := "#ffcc66", boolean := "#ffcc66", comment := "#5c6370"
      brackets := #v["#c9d0ff", "#ffcc66", "#ffffff", "#ffcc66", "#c9d0ff"]
      searchMatch := "rgba(255, 204, 102, 0.25)", searchCurrent := "rgba(255, 204, 102, 0.38)" }
  | .cobalt2 =>
    { background := "#0d0d0d", foreground := "#ffffff", keyword := "#ffa821", string := "#ffffff"
      number := "#ffa821", boolean := "#ffa821", comment := "#00ffff"
      brackets := #v["#00ff00", "#ff0000", "#0000ff", "#ffff00", "#00ffff"]
      searchMatch := "rgba(255, 255, 0, 0.25)", searchCurrent := "rgba(255, 0, 0, 0.38)" }
  | .palenight =>
    { background := "#292d3e", foreground := "#a9b7c6", keyword := "#c3e88d", string := "#c3e88d"
      number := "#ffcb6b", boolean := "#ffcb6b", comment := "#637777"
      brackets := #v["#c3e88d", "#ff6363", "#82aaff", "#ffcb6b", "#c792ea"]
      searchMatch := "rgba(255, 203, 107, 0.25)", searchCurrent := "rgba(255, 99, 99, 0.38)" }
  | .shadesOfPurple =>
    { background := "#2d2a55", foreground := "#ffffff", keyword := "#ff79c6", string := "#ffffff"
      number := "#ff79c6", boolean := "#ff79c6", comment := "#ff79c6"
      brackets := #v["#ffffff", "#ff79c6", "#ffffff", "#ff79c6", "#ffffff"]
      searchMatch := "rgba(255, 121, 198, 0.25)", searchCurrent := "rgba(255, 121, 198, 0.38)" }
  | .noctis =>
    { background := "#191919", foreground := "#ffffff", keyword := "#ffcc66", string := "#ffffff"
      number := "#ffcc66", boolean := "#ffcc66", comment := "#5c6370"
      brackets := #v["#ffffff", "#ffcc66", "#ffffff", "#ffcc66", "#ffffff"]
      searchMatch := "rgba(255, 204, 102, 0.25)", searchCurrent := "rgba(255, 204, 102, 0.38)" }

/-- The colour of a kind of token; plain text has none of its own. -/
def color (theme : Theme) : TokenKind → Option String
  | .plain => none
  | .keyword => some theme.palette.keyword
  | .string => some theme.palette.string
  | .comment => some theme.palette.comment
  | .number => some theme.palette.number
  | .boolean => some theme.palette.boolean
  | .bracket i => some (theme.palette.brackets.get i)

/-- One rule of a style sheet. -/
def styleRule (selector : String) (body : String) : String :=
  selector ++ " \x7b " ++ body ++ " \x7d\n"

/-- The style sheet of the page, the gutter and the search marks. -/
def stylesheet (theme : Theme) : String :=
  let p := theme.palette
  styleRule "pre" ("background: " ++ p.background ++ "; color: " ++ p.foreground ++ ";") ++
  styleRule ".gutter" ("color: " ++ p.comment ++ "; display: inline-block; min-width: 4ch; " ++
    "margin-right: 1ch; text-align: right;") ++
  styleRule "mark.match" ("background: " ++ p.searchMatch ++ "; color: inherit;") ++
  styleRule "mark.match.current" ("background: " ++ p.searchCurrent ++ ";")

end Theme

end Glance
