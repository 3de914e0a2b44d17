import ChatTint.Color.Cycle
import ChatTint.Color.Nearest
import ChatTint.Command.Run
import ChatTint.Command.Usage
import ChatTint.Legacy.Item
import ChatTint.Main
import ChatTint.Proofs.Color.Nearest
import ChatTint.Proofs.Color.Reading
import ChatTint.Proofs.Command.Arguments
import ChatTint.Proofs.Command.Check
import ChatTint.Proofs.Compile.Again
import ChatTint.Proofs.Compile.Depths
import ChatTint.Proofs.Compile.Events
import ChatTint.Proofs.Compile.Meaning
import ChatTint.Proofs.Document.Merged
import ChatTint.Proofs.Legacy.Codec
import ChatTint.Proofs.Legacy.Game
import ChatTint.Proofs.Legacy.Scan
import ChatTint.Proofs.Legacy.Writer
import ChatTint.Proofs.Markup.Appended
import ChatTint.Proofs.Markup.Characters
import ChatTint.Proofs.Markup.Closings
import ChatTint.Proofs.Markup.Keys
import ChatTint.Proofs.Markup.LineBreaks
import ChatTint.Proofs.Markup.Pieces
import ChatTint.Proofs.Markup.Places
import ChatTint.Proofs.Markup.PlainText
import ChatTint.Proofs.Markup.Tags
import ChatTint.Proofs.Markup.Tree
import ChatTint.Proofs.Markup.Unknown
import ChatTint.Proofs.Terminal.Screen
